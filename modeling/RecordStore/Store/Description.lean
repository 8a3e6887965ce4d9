import RecordStore.Store.Basic
import RecordStore.Text.Quoted

namespace RecordStore.Store

variable {σ : Type}

def description (s : Store σ) : String :=
  "Store \x7b storables: [" ++ commaSeparated (s.storables.names.map Quoted.text) ++
    "], max_limit: " ++ toString s.maxLimit ++ ", .. \x7d"

end RecordStore.Store
