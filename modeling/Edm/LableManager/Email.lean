import Edm.Support.Mailbox

/-!
# LableManager — Email

`check_email` of the label manager, and `check_mailbox_syntax`, the copy of it that `deliver_help`
has: 0 for a local part, an `@` and two labels or more, and -1 for anything else.
-/

namespace Edm.DeliverHelp
open Support

def checkMailboxSyntax (mail : Text) : Int := if checkMailbox (cstr mail) then 0 else -1

end Edm.DeliverHelp

namespace Edm.LableManager
open Support DeliverHelp

def checkEmail (mail : Text) : Int := if checkMailbox (cstr mail) then 0 else -1

theorem checkEmail_eq_zero (s : Text) : checkEmail s = 0 ↔ checkMailbox (cstr s) = true := by
  rw [checkEmail]
  split
  next h => exact iff_of_true rfl h
  next h => exact iff_of_false (by decide) h

/-- Both accept the addresses: what stands in front of the NUL has their form. -/
theorem email_iff (s : Text) : (checkEmail s = 0 ↔ IsMailbox (cstr s)) ∧
    (checkMailboxSyntax s = 0 ↔ IsMailbox (cstr s)) := by
  have hcopy : checkMailboxSyntax s = checkEmail s := rfl
  have hemail : checkEmail s = 0 ↔ IsMailbox (cstr s) :=
    (checkEmail_eq_zero s).trans (checkMailbox_iff (cstr s))
  exact ⟨hemail, by rw [hcopy]; exact hemail⟩

end Edm.LableManager
