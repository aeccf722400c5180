import ThemedPrompt.Text.Blank
import ThemedPrompt.Text.UpperCase
import ThemedPrompt.Text.Utf8
import ThemedPrompt.Color.Paint
import ThemedPrompt.Html
import ThemedPrompt.Json.Reader
import ThemedPrompt.Json.Writer
import ThemedPrompt.Template.Render
import ThemedPrompt.Context.Document
import ThemedPrompt.Theme.Document
import ThemedPrompt.Prompt
import ThemedPrompt.Engine
import ThemedPrompt.Engine.Shared
import ThemedPrompt.Sgr.Document
import ThemedPrompt.Template.Document
import ThemedPrompt.Files.Tree
import ThemedPrompt.Toml.Reader
import ThemedPrompt.Toml.Writer
import ThemedPrompt.Error
import ThemedPrompt.Config
import ThemedPrompt.Config.Document
import ThemedPrompt.Config.File
import ThemedPrompt.Config.Search
import ThemedPrompt.Theme.File
import ThemedPrompt.Environment
import ThemedPrompt.Startup
import ThemedPrompt.CommandLine.Request
import ThemedPrompt.CommandLine.Arguments
import ThemedPrompt.CommandLine.Run
import ThemedPrompt.Main
import ThemedPrompt.Proofs.Sgr.Forms
import ThemedPrompt.Proofs.Sgr.Stripped
import ThemedPrompt.Proofs.Color.PaintedOver
import ThemedPrompt.Proofs.Prompt.Decoded
import ThemedPrompt.Proofs.Template.Filled
import ThemedPrompt.Proofs.Template.Agreement
import ThemedPrompt.Proofs.Theme.Lenient
import ThemedPrompt.Proofs.Engine.Sharing
import ThemedPrompt.Proofs.Config.Saved
import ThemedPrompt.Proofs.Config.FirstFound
import ThemedPrompt.Proofs.Html.Faithful
import ThemedPrompt.Proofs.Theme.Written
import ThemedPrompt.Proofs.CommandLine.Rendered
import ThemedPrompt.Proofs.Config.Repeated
import ThemedPrompt.Proofs.Context.DisplayedPaths
import ThemedPrompt.Proofs.Context.UpdateReaders
import ThemedPrompt.Proofs.Prompt.Composed
import ThemedPrompt.Proofs.Template.TagsFound
import ThemedPrompt.Proofs.Template.NamedPaths
import ThemedPrompt.Proofs.Prompt.AspectsRead
import ThemedPrompt.Proofs.Color.HexadecimalForms
import ThemedPrompt.Proofs.Template.Progress
import ThemedPrompt.Proofs.Color.Repainted
import ThemedPrompt.Proofs.Sgr.Offsets
