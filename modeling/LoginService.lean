import LoginService.Json.Embedded.Lemmas
import LoginService.Main
import LoginService.Proofs.Binary64.Exact
import LoginService.Proofs.Binary64.Greatest
import LoginService.Proofs.Binary64.Nearest
import LoginService.Proofs.Binary64.Rounding
import LoginService.Proofs.Binary64.Scale
import LoginService.Proofs.Binary64.Shortest
import LoginService.Proofs.Decimal
import LoginService.Proofs.Digits
import LoginService.Proofs.Environment
import LoginService.Proofs.Http.Route
import LoginService.Proofs.Http.Uri
import LoginService.Proofs.Json.Accuracy
import LoginService.Proofs.Json.DecimalText
import LoginService.Proofs.Json.Document
import LoginService.Proofs.Json.Extent
import LoginService.Proofs.Json.Grammar
import LoginService.Proofs.Json.Integer
import LoginService.Proofs.Json.Literal
import LoginService.Proofs.Json.Number
import LoginService.Proofs.Json.Numeral
import LoginService.Proofs.Json.Place
import LoginService.Proofs.Json.Quoted
import LoginService.Proofs.Json.Reread
import LoginService.Proofs.Json.ShortDecimal
import LoginService.Proofs.Json.Significand
import LoginService.Proofs.Json.Text
import LoginService.Proofs.Json.Token
import LoginService.Proofs.Json.Writer
import LoginService.Proofs.Login.Acceptance
import LoginService.Proofs.Login.Accuracy
import LoginService.Proofs.Login.Decimals
import LoginService.Proofs.Login.Extent
import LoginService.Proofs.Login.Identifier
import LoginService.Proofs.Login.Integers
import LoginService.Proofs.Login.Numbers
import LoginService.Proofs.Login.Outcome
import LoginService.Proofs.Login.Place
import LoginService.Proofs.Login.Resubmission
import LoginService.Proofs.Login.Sentinel
import LoginService.Proofs.Login.Strings
import LoginService.Proofs.NotAhead
import LoginService.Proofs.Settings
import LoginService.Proofs.Site.Answer
import LoginService.Proofs.Site.Disclosure
import LoginService.Proofs.Site.Dispatch
import LoginService.Proofs.Site.Documents
import LoginService.Proofs.Site.Events
import LoginService.Proofs.Site.Handlers
import LoginService.Proofs.Site.Head
import LoginService.Proofs.Site.Headers
import LoginService.Proofs.Site.LoggedBody
import LoginService.Proofs.Site.Routing
import LoginService.Proofs.Startup
import LoginService.Proofs.Utf8
import LoginService.Proofs.Utf8.Lossy
import LoginService.Site
