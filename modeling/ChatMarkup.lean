import ChatMarkup.Text.Blank
import ChatMarkup.Text.Letter
import ChatMarkup.Tree.Attributes
import ChatMarkup.Tree.Search
import ChatMarkup.Source.Trivia
import ChatMarkup.Source.Document
import ChatMarkup.Error
import ChatMarkup.Json.Reader
import ChatMarkup.Tree.Json
import ChatMarkup.Source.Writer
import ChatMarkup.Html.Basic
import ChatMarkup.View.Rendering
import ChatMarkup.View.Page
import ChatMarkup.Chat.Error
import ChatMarkup.Chat.Message
import ChatMarkup.Tree.Stamp
import ChatMarkup.Text.Decoder
import ChatMarkup.Chat.Config
import ChatMarkup.Chat.Service
import ChatMarkup.Html.Name
import ChatMarkup.Html.Character
import ChatMarkup.Html.Token
import ChatMarkup.Html.Import
import ChatMarkup.Chat.Session
import ChatMarkup.Command.Directory
import ChatMarkup.Command.Render
import ChatMarkup.Command.Validate
import ChatMarkup.Main
import ChatMarkup.Proofs.Number.Numeral
import ChatMarkup.Proofs.Chat.Revision
import ChatMarkup.Proofs.Chat.Saving
import ChatMarkup.Proofs.Chat.Reference
import ChatMarkup.Proofs.Text.Lossy
import ChatMarkup.Proofs.Chat.Streaming
import ChatMarkup.Proofs.Chat.Outcome
import ChatMarkup.Proofs.Tree.Update
import ChatMarkup.Proofs.Chat.Stamping
import ChatMarkup.Proofs.Chat.Accounting
import ChatMarkup.Proofs.Chat.Readable
import ChatMarkup.Proofs.Chat.WriteBack
import ChatMarkup.Proofs.Chat.Reply
import ChatMarkup.Proofs.Chat.Stored
import ChatMarkup.Proofs.Html.Conservation
import ChatMarkup.Proofs.View.Resave
import ChatMarkup.Proofs.View.Controls
import ChatMarkup.Proofs.View.Document
import ChatMarkup.Proofs.View.ReturnedLists
import ChatMarkup.Proofs.View.Shown
import ChatMarkup.Proofs.Html.Elements
import ChatMarkup.Proofs.View.Reread
import ChatMarkup.Proofs.Chat.Settling
import ChatMarkup.Proofs.Source.Layout
import ChatMarkup.Proofs.Source.Lookup
import ChatMarkup.Proofs.Chat.Paragraph
import ChatMarkup.Proofs.Chat.Replacement
import ChatMarkup.Proofs.Source.Sequence
import ChatMarkup.Proofs.Tree.Change
import ChatMarkup.Proofs.View.Buttons
import ChatMarkup.Proofs.Chat.Click
import ChatMarkup.Proofs.Chat.Running
import ChatMarkup.Proofs.View.FailedPasses
import ChatMarkup.Proofs.Tree.Standing
import ChatMarkup.Proofs.View.Visits
import ChatMarkup.Proofs.Source.Cursor
import ChatMarkup.Proofs.Source.Tracking
import ChatMarkup.Proofs.View.Refused
import ChatMarkup.Proofs.Source.JsonString
import ChatMarkup.Proofs.View.Tokens
import ChatMarkup.Proofs.Chat.ListSource
import ChatMarkup.Proofs.Source.Progress
