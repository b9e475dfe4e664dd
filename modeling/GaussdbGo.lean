import GaussdbGo.Lib.Go
import GaussdbGo.Lib.Binary
import GaussdbGo.Lib.Bytes
import GaussdbGo.Lib.Io
import GaussdbGo.Lib.Strconv
import GaussdbGo.Proto.Wire
import GaussdbGo.Proto.BackendMessage
import GaussdbGo.Proto.FrontendMessage
import GaussdbGo.Proto.ChunkReader
import GaussdbGo.Proto.Receive
import GaussdbGo.Proto.Frontend
import GaussdbGo.Proto.Backend
import GaussdbGo.Proto.Flyweight
import GaussdbGo.Lib.Utf8
import GaussdbGo.Sanitize.Lexer
import GaussdbGo.Sanitize.Runes
import GaussdbGo.Sanitize.Trace
import GaussdbGo.Sanitize.Sanitize
import GaussdbGo.Sanitize.Parts
import GaussdbGo.Sanitize.Transfer
import GaussdbGo.Sanitize.Segments
import GaussdbGo.Sanitize.Arguments
import GaussdbGo.Sanitize.Structure
import GaussdbGo.Conn.Buf
import GaussdbGo.Conn.RfcDigest
import GaussdbGo.Conn.AuthSha256
import GaussdbGo.Lib.Machine
import GaussdbGo.Lib.Indexed
import GaussdbGo.Stmtcache.LRUCache
import GaussdbGo.Stmtcache.Invariant
import GaussdbGo.Stmtcache.Recency
import GaussdbGo.Gaussdbtype.Composite
import GaussdbGo.Gaussdbtype.CompositeRoundTrip
import GaussdbGo.Gaussdbtype.Numeric
import GaussdbGo.Gaussdbtype.NumericBinary
import GaussdbGo.Gaussdbtype.NumericText
import GaussdbGo.Conn.Pipeline
import GaussdbGo.Conn.Bgreader
import GaussdbGo.Conn.Ctxwatch
import GaussdbGo.Conn.NamedArgs
import GaussdbGo.Lib.Hex
import GaussdbGo.Lib.Json
import GaussdbGo.Proto.Json
import GaussdbGo.LargeObjects
import GaussdbGo.Rows
import GaussdbGo.Lib.Strings
import GaussdbGo.Lib.Url
import GaussdbGo.Conn.Config
import GaussdbGo.Conn.ConfigHosts
import GaussdbGo.Lib.Unicode
import GaussdbGo.Gaussdbtype.Range
import GaussdbGo.Gaussdbtype.Multirange
import GaussdbGo.Gaussdbtype.Interval
import GaussdbGo.Gaussdbtype.Hstore
import GaussdbGo.Gaussdbtype.HstoreRoundTrip
import GaussdbGo.Gaussdbtype.Array
import GaussdbGo.Gaussdbtype.ArrayText
import GaussdbGo.Gaussdbtype.ArrayRoundTrip
