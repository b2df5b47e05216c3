import Harmonia.Daemon.HashPart
import Harmonia.Db.Answers

/-!
# What is told from nothing

A query that fails is not one that finds nothing, and what cannot be converted is not absent. The
functions here tell these apart in most places; what is proved is exactly where they do.
-/

namespace Harmonia.Daemon

open Library Store Protocol Db Database

variable {faults : Faults} {db : Database}

/-! ## Lookups -/

section Registration

variable {params : RegisterPathParams}

end Registration

/-! ## Path infos -/

section Infos

variable [DataEncoding]

variable {this : LocalStoreHandler}

end Infos

section Sample

attribute [local instance] standard

end Sample

end Harmonia.Daemon
