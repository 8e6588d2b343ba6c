import SourceAudit.Construct

/-! Tables of dangerous calls: which argument of a call a rule inspects. -/
namespace SourceAudit

/-- For callees, and for the names of called members, the index of the inspected argument. -/
structure CallTable where
  callees : List (String × Nat) := []
  properties : List (String × Nat) := []

namespace CallTable

/-- Entries for names that share an index. -/
def entries (names : List String) (index : Nat) : List (String × Nat) :=
  names.map fun name => (name, index)

/-- The index for a call: by its whole callee, or else by the name of the called member. -/
def index? (table : CallTable) (call : Call) : Option Nat :=
  (table.callees.lookup call.callee).or (call.property.bind fun name => table.properties.lookup name)

/-- The inspected argument of a call. -/
def argument? (table : CallTable) (call : Call) : Option Value :=
  (table.index? call).bind fun i => call.args[i]?

/-- Whether the inspected argument exists and has a shape that `test` accepts. -/
def inspects (table : CallTable) (test : Shape → Bool) (call : Call) : Bool :=
  (table.argument? call).any fun v => test v.shape

end CallTable
end SourceAudit
