import MixinNaming.Edit
/-! Asking several candidates for one answer. Candidates may abstain; the others have to give the
same answer, and the first that differs ends the vote. -/
namespace MixinNaming

variable {α β : Type} [DecidableEq β]

/-- The vote of the candidates that are left, when `found` is what the earlier ones agree on. -/
def agreeFrom (vote : α → Attempt (Option β)) (torn : β → β → Fault) (found : Option β) :
    List α → Attempt (Option β)
  | [] => .answer found
  | a :: rest =>
    (vote a).bind fun ballot =>
      match found, ballot with
      | found, none => agreeFrom vote torn found rest
      | none, some b => agreeFrom vote torn (some b) rest
      | some first, some b =>
        if first = b then agreeFrom vote torn (some first) rest else .stop (torn first b)

def agree (vote : α → Attempt (Option β)) (torn : β → β → Fault) (candidates : List α) :
    Attempt (Option β) :=
  agreeFrom vote torn none candidates

end MixinNaming
