import MiniDbms.BPTree.Equiv.Map
import MiniDbms.BPTree.Equiv.Chain
import MiniDbms.Sql.Equiv.Language
import MiniDbms.Sql.Equiv.Numbers
import MiniDbms.Sql.Equiv.Whitespace
import MiniDbms.Sql.Equiv.Execute
import MiniDbms.Table.Equiv.Select
import MiniDbms.Table.Equiv.Insert
import MiniDbms.Table.Equiv.Agreement
import MiniDbms.Server.Equiv.Submit
import MiniDbms.Server.Equiv.Http
import MiniDbms.Server.Equiv.Api
import MiniDbms.Table.Equiv.Failures
import MiniDbms.Server.Equiv.Failures
import MiniDbms.Server.Equiv.Server
import MiniDbms.Server.Equiv.Lifetime
import MiniDbms.Lib.Lines
import MiniDbms.Server.Equiv.Contract
import MiniDbms.Sql.Equiv.Lock
import MiniDbms.Sql.Equiv.Outcome
import MiniDbms.Server.Equiv.Utf8
import MiniDbms.Sql.Equiv.SelectFailures
import MiniDbms.BPTree.Equiv.Links
import MiniDbms.Lib.LineReader
import MiniDbms.Server.AcceptLoop
import MiniDbms.Server.Equiv.AcceptLoop
import MiniDbms.Server.Equiv.Delivery
import MiniDbms.Server.Equiv.FailedStart
import MiniDbms.Server.Equiv.JsonBuffer
import MiniDbms.Sql.Equiv.Repl
import MiniDbms.Table.Equiv.LockSafety
import MiniDbms.Table.Equiv.Locking
import MiniDbms.Lib.CPointer
import MiniDbms.Sql.Equiv.Scanner
import MiniDbms.Server.Equiv.Shutdown
import MiniDbms.BPTree.Equiv.Destroy
import MiniDbms.Server.Equiv.Session
import MiniDbms.Server.Equiv.Startup
import MiniDbms.Server.Equiv.Teardown
import MiniDbms.Table.Equiv.Linearizable
import MiniDbms.Table.Equiv.FirstMatch
