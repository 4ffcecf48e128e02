import MiniDbms.Server.Server

/-!
# One connection after another (`server/server.c`)

The server with its table, as one worker serves its clients: `api_handle_query` works on the table
that the clients before have left.
-/

namespace MiniDbms

/-- The client of a thread whose `api_handle_query` works on the table `m`. -/
def Client.onTable (client : Client) (m : TableMemory) : Client :=
  { client with query := fun sql =>
      ((apiHandleQuery m sql).map fun r => (r.1, r.2.2)).getD (false, ⟨500, none⟩) }

/-- The table when `server_handle_client` has returned. -/
def tableBehind (m : TableMemory) (client : Client) : Option TableMemory := do
  match ← httpReadRequest client.fuel client.request with
  | .error _ => some m
  | .ok request => do
    let (_, m, _) ← apiHandleQuery m (← request.body.readString 0 (httpMaxBodySize + 1))
    some m

/-- The clients one after another: the table behind them, and what each of them received; or the
signal that ended the process. -/
def serverSession (dispositions : Dispositions) (m : TableMemory) :
    List Client → Option (Except Signal (TableMemory × List Wire))
  | [] => some (.ok (m, []))
  | client :: clients => do
    let reply ← serverHandleClient client.fuel (client.onTable m)
    match ← serverSend dispositions client.fuel ⟨[], client.outcomes⟩ reply with
    | .error signal => some (.error signal)
    | .ok wire => do
      match ← serverSession dispositions (← tableBehind m client) clients with
      | .error signal => some (.error signal)
      | .ok (m, wires) => some (.ok (m, wire :: wires))

end MiniDbms
