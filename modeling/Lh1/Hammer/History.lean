/-
  The arguments of `hammer history` (cmd_history.c).

  All arguments are parsed into one record. `parse_attr_path` leaves the offset and the length in
  it as they are when the argument has none of its own, so those of an earlier argument stay.

  What `stat` says of an argument, and the two number parsers, are parameters: `none` stands for a
  number that is out of range, which ends the process. What is done with a path is left out.

  * `history_independent_iff`: when no argument is handled with the numbers of another one.
-/
import Mathlib

namespace Lh1.Hammer.History

/-- `struct cmd_attr`, without the path. -/
structure Attr where
  offset : Int
  length : Int
  deriving DecidableEq

/-- No key, and the default dump size. -/
def Attr.default : Attr := ⟨-1, 32⟩

/-- The host: `stat(path) == 0`, and `strtoll` and `strtol` with what they leave of the text. -/
structure Host where
  stat : List Char → Bool
  strtoll : List Char → Option (Int × List Char)
  strtol : List Char → Option Int

/-- The text behind the offset. -/
def parseLength (host : Host) (offset : Int) : List Char → Option Attr
  | ',' :: text => (host.strtol text).map fun n => ⟨offset, if 0 ≤ n then n else 32⟩
  | _ => some ⟨offset, 32⟩

/-- `parse_attr` behind an `@`; `none` ends the process. -/
def parseAttr (host : Host) (text : List Char) : Option Attr :=
  (host.strtoll text).bind fun (offset, rest) => parseLength host offset rest

/-- The attributes that are written in an argument, behind its first `@`. -/
def written (host : Host) (arg : List Char) : Option (List Char) :=
  if host.stat arg ∨ arg.head? = some '@' then none
  else (arg.dropWhile (· ≠ '@')).tail?

/-- `parse_attr_path`, on the record of the arguments before. -/
def parseAttrPath (host : Host) (ca : Attr) (arg : List Char) : Option Attr :=
  (written host arg).elim (some ca) (parseAttr host)

/-- The loop over the arguments: the numbers each of them is handled with, until the process
    ends. -/
def loop (host : Host) (old : Bool) : Attr → List (List Char) → List Attr
  | _, [] => []
  | ca, arg :: av =>
    match if old then some ca else parseAttrPath host ca arg with
    | none => []
    | some ca => ca :: loop host old ca av

/-- `hammer_cmd_history`; `parse_attr` sets the defaults where there is no `@`. -/
def history (host : Host) (offsetStr : List Char) (av : List (List Char)) : List Attr :=
  if offsetStr.head? = some '@' then
    (parseAttr host offsetStr.tail).elim [] fun ca => loop host true ca av
  else loop host false .default av

/-- The numbers of an argument by itself. -/
def own (host : Host) (offsetStr arg : List Char) : Option Attr :=
  if offsetStr.head? = some '@' then parseAttr host offsetStr.tail
  else parseAttrPath host .default arg

/-- The next argument has its own numbers, or the record has the defaults. -/
def Fresh (host : Host) (ca : Attr) : List (List Char) → Prop
  | [] => True
  | arg :: _ => written host arg = none → ca = .default

/-- No argument without numbers comes right behind one with numbers other than the defaults, as
    far as the process gets. -/
def Apart (host : Host) : List (List Char) → Prop
  | [] => True
  | arg :: av =>
    match parseAttrPath host .default arg with
    | none => True
    | some ca => Fresh host ca av ∧ Apart host av

/-- The loop, from whatever the record has. -/
theorem loop_independent_iff (host : Host) (av : List (List Char)) (ca : Attr) :
    (∀ p ∈ (loop host false ca av).zip av, parseAttrPath host .default p.2 = some p.1) ↔
      Fresh host ca av ∧ Apart host av := by
  induction av generalizing ca with
  | nil => simp [loop, Fresh, Apart]
  | cons arg av ih =>
    rw [loop, Apart, Fresh, if_neg Bool.false_ne_true]
    cases hw : written host arg with
    | none =>
      have hp : ∀ ca, parseAttrPath host ca arg = some ca := fun ca => by
        rw [parseAttrPath, hw, Option.elim_none]
      simp only [hp, List.zip_cons_cons, List.forall_mem_cons, ih, Option.some.injEq, forall_const]
      constructor
      · rintro ⟨rfl, h⟩
        exact ⟨rfl, h⟩
      · rintro ⟨rfl, h⟩
        exact ⟨rfl, h⟩
    | some attr =>
      have hp : ∀ ca, parseAttrPath host ca arg = parseAttr host attr := fun ca => by
        rw [parseAttrPath, hw, Option.elim_some]
      rw [hp, hp, and_iff_right fun h => by cases h]
      cases hattr : parseAttr host attr with
      | none => simp
      | some r =>
        simp only [List.zip_cons_cons, List.forall_mem_cons, hp, hattr, true_and]
        exact ih r

theorem loop_old (host : Host) (av : List (List Char)) (ca : Attr) :
    ∀ p ∈ (loop host true ca av).zip av, ca = p.1 := by
  induction av with
  | nil => simp [loop]
  | cons arg av ih =>
    rw [loop, if_pos rfl]
    exact List.forall_mem_cons.mpr ⟨rfl, ih⟩

/-- Each argument is handled with its own numbers iff there are global ones or no argument can
    see those of another. -/
theorem history_independent_iff (host : Host) (offsetStr : List Char) (av : List (List Char)) :
    (∀ p ∈ (history host offsetStr av).zip av, own host offsetStr p.2 = some p.1) ↔
      offsetStr.head? = some '@' ∨ Apart host av := by
  unfold history own
  by_cases hat : offsetStr.head? = some '@'
  · simp only [hat, true_or, iff_true]
    cases parseAttr host offsetStr.tail with
    | none => simp
    | some ca => exact fun p hp => congrArg some (loop_old host av ca p hp)
  · have hfresh : Fresh host .default av := by cases av <;> simp [Fresh]
    simp only [hat, if_false, false_or, loop_independent_iff, hfresh, true_and]

/-- `hammer history f@5 g` looks at `g` at offset 5. -/
theorem history_dependent : ∃ host : Host, ¬ ∀ p ∈
    (history host [] [['f', '@', '5'], ['g']]).zip [['f', '@', '5'], ['g']],
      own host [] p.2 = some p.1 :=
  ⟨⟨fun _ => false, fun _ => some (5, []), fun _ => none⟩, by decide⟩

end Lh1.Hammer.History
