import TfuServer.Text.Numeral
import TfuServer.Text.Replace
import TfuServer.Program
import TfuServer.Script
import TfuServer.Pool
import TfuServer.Footprint
import TfuServer.Sql.Lexer
import TfuServer.Sql.Literal
import TfuServer.Sql.Statement
import TfuServer.Sql.Template
import TfuServer.Sql.Table
import TfuServer.Sql.Keyed
import TfuServer.Sql.FirstColumn
import TfuServer.Sql.Like
import TfuServer.Sql.Upsert
import TfuServer.Json.Reader
import TfuServer.Json.Lengths
import TfuServer.Json.Writer
import TfuServer.Json.ReadBack
import TfuServer.Json.StoredText
import TfuServer.Json.EncodedText
import TfuServer.Json.Value
import TfuServer.Json.Spellings
import TfuServer.Json.Escaped
import TfuServer.Json.Related
import TfuServer.Json.Masked
import TfuServer.Json.Spelled
import TfuServer.Server.Records
import TfuServer.Server.DBManager
import TfuServer.Server.Decode
import TfuServer.Server.Managers
import TfuServer.Server.Server
import TfuServer.Server.Standard
import TfuServer.Server.Statements
import TfuServer.Server.Calls
import TfuServer.Server.Uploads
import TfuServer.Server.Answers
import TfuServer.Server.Images
import TfuServer.Server.Stores
import TfuServer.Server.Upserts
import TfuServer.Server.Documents
import TfuServer.Server.SharedRows
import TfuServer.Server.Reload
import TfuServer.Server.PartialReload
import TfuServer.Server.Mirror
import TfuServer.Server.Failures
import TfuServer.Server.Branches
import TfuServer.Server.Unparsed
import TfuServer.Server.Listener
import TfuServer.Server.Search
import TfuServer.Server.Dataset
import TfuServer.Server.Masking
import TfuServer.Server.Import
import TfuServer.Server.RoundTrip
import TfuServer.Server.Wrapped
import TfuServer.Server.Accepted
import TfuServer.Server.Serving
import TfuServer.Server.Confined
import TfuServer.Server.Reposted
import TfuServer.Server.PostedLists
import TfuServer.Server.Console
import TfuServer.Server.Steps
import TfuServer.Server.Traffic
import TfuServer.Server.Growth
import TfuServer.Server.ImageRaces
import TfuServer.Server.OwnRecords
import TfuServer.Server.Unread
import TfuServer.Server.ListenerThreads
import TfuServer.Server.Recommended
import TfuServer.Server.RequestEnds
import TfuServer.Server.LoopsServed
import TfuServer.Server.ImagesAlone
import TfuServer.Server.Loading
