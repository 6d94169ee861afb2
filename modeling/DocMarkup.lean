import DocMarkup.Main
import DocMarkup.Markup.JsonForm
import DocMarkup.Proofs.RawHtml.AttributeScan
import DocMarkup.Proofs.RawHtml.AttributeText
import DocMarkup.Proofs.RawHtml.TokenText
import DocMarkup.Proofs.Markup.Subtrees
import DocMarkup.Proofs.RawHtml.MarkupTokens
import DocMarkup.Proofs.RawHtml.RoundTrip
import DocMarkup.Proofs.RawHtml.OpenStack
import DocMarkup.Proofs.RawHtml.Elements
import DocMarkup.Proofs.RawHtml.Safety
import DocMarkup.Proofs.Render.Walk
import DocMarkup.Proofs.Footnote.Order
import DocMarkup.Proofs.Footnote.Citation
import DocMarkup.Proofs.Footnote.Draining
import DocMarkup.Proofs.Render.DocTree
import DocMarkup.Proofs.Dict
import DocMarkup.Proofs.Footnote.EndnoteOrder
import DocMarkup.Proofs.Render.Properties
import DocMarkup.Proofs.Markup.Landmark
import DocMarkup.Proofs.Render.TableOrder
import DocMarkup.Proofs.Footnote.Shown
import DocMarkup.Proofs.Footnote.Agreement
import DocMarkup.Proofs.Tree.Occurrence
import DocMarkup.Proofs.Compilation
import DocMarkup.Proofs.Footnote.Recorded
import DocMarkup.Proofs.Render.Hazards
import DocMarkup.Proofs.Render.Safety
import DocMarkup.Proofs.RawHtml.Idempotence
import DocMarkup.Proofs.Footnote.Backlink
import DocMarkup.Proofs.Footnote.Target
import DocMarkup.Proofs.Render.LeafText
import DocMarkup.Proofs.Render.Untagged
import DocMarkup.Proofs.Markup.Keys
import DocMarkup.Proofs.Render.SiblingKeys
import DocMarkup.Proofs.Json.Canonical
import DocMarkup.Proofs.Tree.Spelling
import DocMarkup.Proofs.Tree.Records
import DocMarkup.Proofs.Tree.SpellingRead
import DocMarkup.Proofs.Json.Reading
import DocMarkup.Proofs.Json.Compact
import DocMarkup.Proofs.Tree.EverySpelling
import DocMarkup.Proofs.History
import DocMarkup.Proofs.Footnote.Consistency
import DocMarkup.Proofs.Footnote.Tables
import DocMarkup.Proofs.RawHtml.Pieces
import DocMarkup.Proofs.RawHtml.Shape
import DocMarkup.Proofs.Render.TableGroups
import DocMarkup.Proofs.Render.Layers
import DocMarkup.Proofs.Render.AttributeNames
import DocMarkup.Proofs.Markup.StyleNames
import DocMarkup.Proofs.RawHtml.Disguise
import DocMarkup.Proofs.RawHtml.References
import DocMarkup.Proofs.Render.Interchange
import DocMarkup.Proofs.Render.Respelling
import DocMarkup.Proofs.Render.UnknownNodes
import DocMarkup.Proofs.RawHtml.KeyPlaces
import DocMarkup.Proofs.NamedTags
import DocMarkup.Proofs.Markup.JsonReading
import DocMarkup.Proofs.RawHtml.AttributeSplit
import DocMarkup.Proofs.InsertionOrder
