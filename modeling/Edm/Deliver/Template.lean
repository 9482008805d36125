import Edm.Deliver.Node
import Edm.Support.Replace
import Edm.Support.Split

/-!
# Deliver — Template

How a mail is made from the template of its task and the variables of its subscriber
(`DeliverEngineApp::MakeMailText`, `StrReplace`, `table_first_step`, `table_second_step`).

One variable after another, in the order of their names, is replaced in the whole text.  A value
with `|` is a column of a table instead: the rows `<tr class="__many__">` of the text are repeated
for its parts.  At last come three placeholders of the engine itself.

`StrReplace` starts over after each replacement and need not end: the text is `none` when the fuel
does not last, or when a name does not fit into its buffer of 128 bytes.
-/

namespace Edm.Deliver
open Support

/-! ### Replacing -/

/-- `sprintf(old, "$%s$", …)`. -/
def placeholder (key : Text) : Text := '$' :: (key ++ ['$'])

/-- `StrReplace`. -/
def strReplace (fuel : Nat) (dest oldstr newstr : Text) : Option Text :=
  if oldstr = newstr then some dest else replaceLoop oldstr newstr fuel dest

/-- `dw_replace`: every `optr` from left to right, and their number.  `skip` is what is left of
the `optr` that was met. -/
def dwReplaceFrom (optr nptr : Text) : Nat → Text → Text × Nat
  | _, [] => ([], 0)
  | skip + 1, _ :: text => dwReplaceFrom optr nptr skip text
  | 0, c :: text =>
      if optr.isPrefixOf (c :: text) then
        ((nptr ++ (dwReplaceFrom optr nptr (optr.length - 1) text).1),
          (dwReplaceFrom optr nptr (optr.length - 1) text).2 + 1)
      else (c :: (dwReplaceFrom optr nptr 0 text).1, (dwReplaceFrom optr nptr 0 text).2)

def dwReplace (text optr nptr : Text) : Text × Nat := dwReplaceFrom optr nptr 0 text

/-! ### Tables -/

/-- `tables_t`: the parts of each column, by the placeholder of its name. -/
abbrev Tables := StdMap Text (List Text)

/-- `table_first_step`; `none` if the value is no column. -/
def tableFirstStep (vars values : Text) (tables : Tables) : Option Tables :=
  if vars.isEmpty || !values.contains '|' then none
  else some (tables.set (placeholder vars) ((cstr values).splitOn '|'))

/-- `strcasestr(s, t)`: the part of `s` from the first `t` on, whatever the case of its letters. -/
def strcasestr (t : Text) : Text → Option Text
  | [] => if t.isEmpty then some [] else none
  | c :: s => if strncasecmpEq (c :: s) t then some (c :: s) else strcasestr t s

/-- `strchr(s, c)`. -/
def strchr (c : Char) (s : Text) : Option Text :=
  if s.contains c then some (s.dropWhile (· != c)) else none

def isQuote (c : Char) : Bool := c.toNat == 39 || c.toNat == 34

/-- What stands behind a `<tr `: nothing that matters, up to where the search goes on, or the rest
of a row to repeat, up to its end; `none` if the search ends here. -/
def rowTag (s : Text) : Option (Bool × Nat) :=
  let b := skipBlanks s
  if !strncasecmpEq b "class=".toList then some (false, s.length - b.length)
  else
    let b := b.drop 6
    if !isQuote (b.headD nul) then some (false, s.length - b.length)
    else
      let name := (b.drop 1).takeWhile fun c => !isQuote c
      let b := (b.drop 1).drop name.length
      if name ≠ "__many__".toList then some (false, s.length - b.length)
      else
        (strchr '>' b).bind fun b =>
          (strcasestr "</tr>".toList (skipBlanks (b.drop 1))).map fun endtr =>
            (true, s.length - (endtr.length - 5))

/-- The rows to repeat, each marked `true`, and the text between them. -/
def rowsFrom : Nat → Text → Text → List (Bool × Text)
  | 0, before, s => [(false, before ++ s)]
  | fuel + 1, before, s =>
      match strcasestr "<tr ".toList s with
      | none => [(false, before ++ s)]
      | some b =>
          match rowTag (b.drop 4) with
          | none => [(false, before ++ s)]
          | some (false, n) =>
              rowsFrom fuel (before ++ s.take (s.length - b.length + (4 + n))) (b.drop (4 + n))
          | some (true, n) =>
              (false, before ++ s.take (s.length - b.length)) :: (true, b.take (4 + n)) ::
                rowsFrom fuel [] (b.drop (4 + n))

/-- Each tag is at least four characters further on. -/
def rows (html : Text) : List (Bool × Text) := rowsFrom html.length [] html

/-- The row for the parts at `pos`, and the number of replacements in it. -/
def rowAt (tables : Tables) (row : Text) (pos : Nat) : Text × Nat :=
  tables.entries.foldl
    (fun tr e => e.2[pos]?.elim tr fun value =>
      ((dwReplace tr.1 e.1 value).1, tr.2 + (dwReplace tr.1 e.1 value).2))
    ("\r\n".toList ++ row, 0)

/-- The rows from `pos` on, up to the first in which nothing is replaced. -/
def rowsAt (tables : Tables) (row : Text) : Nat → Nat → Text
  | 0, _ => []
  | fuel + 1, pos =>
      if (rowAt tables row pos).2 < 1 then []
      else (rowAt tables row pos).1 ++ rowsAt tables row fuel (pos + 1)

/-- The longest column. -/
def Tables.height (tables : Tables) : Nat := (tables.entries.map fun e => e.2.length).foldr max 0

/-- A row, repeated; it stays as it is when there is nothing to repeat. -/
def repeatRow (tables : Tables) (row : Text) : Text :=
  if (rowsAt tables row (tables.height + 1) 0).isEmpty then row
  else rowsAt tables row (tables.height + 1) 0

/-- `table_second_step`. -/
def tableSecondStep (html : Text) (tables : Tables) : Text :=
  if html.isEmpty || tables.entries.isEmpty then html
  else (rows html).flatMap fun s => if s.1 then repeatRow tables s.2 else s.2

/-! ### Making the mail -/

/-- What the loop over the variables changes. -/
structure Merge where
  mail_text : Text
  tables : Tables
  random : Int

/-- The loop over the variables, at one of them. -/
def mergeVariable (fuel : Nat) (template_text : Text) (m : Merge) (it : Text × Text) :
    Option Merge :=
  if (cstr it.1).isEmpty then some m
  else if 125 < (cstr it.1).length then none
  else
    let random := if cstr it.1 = "iedm_ran".toList then atoi it.2 else m.random
    match tableFirstStep it.1 it.2 m.tables with
    | some tables => some { m with random := random, tables := tables }
    | none =>
        if occursIn (cstr it.1) template_text then
          (strReplace fuel m.mail_text (placeholder (cstr it.1)) (cstr it.2)).map fun mail_text =>
            { m with random := random, mail_text := mail_text }
        else some { m with random := random }

/-- A placeholder of the engine. -/
def mergeBuiltin (fuel : Nat) (template_text : Text) (mail_text : Text) (it : Text × Text) :
    Option Text :=
  if occursIn (placeholder it.1) template_text then
    strReplace fuel mail_text (placeholder it.1) it.2
  else some mail_text

/-- The digits of `base64_encode`. -/
def base : Text := "ABCDEFGHIJKLMNOPQRSTUVWXYZabcdefghijklmnopqrstuvwxyz0123456789+/=".toList

/-- Four digits for up to three bytes, the first digit for the highest bits. -/
def base64Group (bytes : List Nat) : Text :=
  (List.range 4).map fun i =>
    if bytes.length < i then base.getD 64 nul
    else base.getD (((bytes.getD 0 0 * 2 ^ 16 + bytes.getD 1 0 * 2 ^ 8 + bytes.getD 2 0)
      >>> ((3 - i) * 6)) % 64) nul

/-- `base64_encode`. -/
def base64Encode : Text → Text
  | a :: b :: c :: data => base64Group [a.toNat % 256, b.toNat % 256, c.toNat % 256] ++
      base64Encode data
  | [a, b] => base64Group [a.toNat % 256, b.toNat % 256]
  | [a] => base64Group [a.toNat % 256]
  | [] => []

/-- The placeholders of the engine and their values: the mailbox, the mailbox in base 64, and the
time `sTime2` the clock shows. -/
def builtins (mail sTime2 : Text) : List (Text × Text) :=
  [("iedm_to".toList, mail), ("iedm2_to".toList, (base64Encode mail).take 255),
    ("iedm_time".toList, sTime2)]

/-- `MakeMailText`: the text and the value of `iedm_ran`. -/
def makeMailText (fuel : Nat) (template_text : Text) (map_variable : StdMap Text Text)
    (mail sTime2 : Text) (random : Int) : Option (Text × Int) :=
  (map_variable.entries.foldlM (mergeVariable fuel template_text)
    ⟨template_text, .empty, random⟩).bind
    fun m =>
      ((builtins mail sTime2).foldlM (mergeBuiltin fuel template_text)
        (tableSecondStep m.mail_text m.tables)).map fun mail_text => (mail_text, m.random)

end Edm.Deliver
