import Bom.Json.Printer
import Bom.Proofs.Json.Grammar

/-!
# Objects of texts and back

What is written of an object of texts is such an object (`isObjectOfTexts_renderTexts`), whatever
characters its names and texts have: a character is escaped in one of three ways, and each of them
stands for the character (`characters_escaped`). So it is read as the object that was written
(`readTexts?_renderTexts`), and no two objects have one text (`renderTexts_injective`).
-/

namespace Bom

open JsonGrammar JsonPrinter

/-- The digits of a control character name it. -/
theorem unit?_hexDigit : ∀ n < 0x20,
    JsonReader.unit? '0' '0' (hexDigit (n / 16)) (hexDigit (n % 16)) = some n := by
  decide

/-- However a character is written, it stands for itself. -/
theorem characters_escaped (c : Char) {cs chars rest : List Char} (h : Characters cs chars rest) :
    Characters (escaped c ++ cs) (c :: chars) rest := by
  unfold escaped
  split
  next hc => subst hc; exact .short rfl h
  split
  next hc => subst hc; exact .short rfl h
  split
  next hc => subst hc; exact .short rfl h
  split
  next hc => subst hc; exact .short rfl h
  split
  next hc => subst hc; exact .short rfl h
  split
  next hc => subst hc; exact .short rfl h
  split
  next hc => subst hc; exact .short rfl h
  split
  next hcontrol =>
    have hhigh : JsonReader.isHighHalf c.toNat = false :=
      Bool.and_eq_false_imp.2 fun hle => by simp at hle; omega
    have hlow : JsonReader.isLowHalf c.toNat = false :=
      Bool.and_eq_false_imp.2 fun hle => by simp at hle; omega
    have hunit := Characters.unit (unit?_hexDigit c.toNat hcontrol) hhigh hlow h
    rwa [Char.ofNat_toNat] at hunit
  next hquote hbackslash _ _ _ _ _ hcontrol =>
    exact .plain hquote hbackslash (Nat.le_of_not_lt hcontrol) h

/-- The characters of a text stand in front of the closing quote. -/
theorem characters_flatMap_escaped (chars rest : List Char) :
    Characters (chars.flatMap escaped ++ '"' :: rest) chars rest := by
  induction chars with
  | nil => exact .close rest
  | cons c chars ih =>
    rw [List.flatMap_cons, List.append_assoc]
    exact characters_escaped c ih

/-- A mark needs no blanks in front of it. -/
theorem mark_cons (c : Char) (rest : List Char) : Mark c (c :: rest) rest :=
  ⟨[], List.forall_mem_nil _, rfl⟩

theorem quoted_quoted (s : String) (rest : List Char) : Quoted (quoted s ++ rest) s rest := by
  refine ⟨s.toList.flatMap escaped ++ '"' :: rest, ?_, characters_flatMap_escaped s.toList rest⟩
  unfold quoted
  rw [List.cons_append, List.append_assoc]
  exact mark_cons _ _

theorem member_member (m : String × String) (rest : List Char) :
    Member (member m ++ rest) m rest := by
  refine ⟨':' :: (quoted m.2 ++ rest), quoted m.2 ++ rest, ?_, mark_cons _ _, quoted_quoted _ _⟩
  unfold member
  rw [List.append_assoc]
  exact quoted_quoted _ _

theorem members_members (rest : List Char) : ∀ {ms : List (String × String)}, ms ≠ [] →
    Members (members ms ++ '\x7d' :: rest) ms rest
  | [m], _ => .last (member_member m _) (mark_cons _ _)
  | m :: m' :: ms, _ => by
    have hothers := members_members rest (List.cons_ne_nil m' ms)
    have hwritten : members (m :: m' :: ms) = member m ++ ',' :: members (m' :: ms) := rfl
    rw [hwritten, List.append_assoc]
    exact .more (member_member m _) (mark_cons _ _) hothers

/-- What is written of an object of texts is this object. -/
theorem isObjectOfTexts_renderTexts (ms : List (String × String)) :
    IsObjectOfTexts (renderTexts ms) ms := by
  have hopen : Mark '\x7b' (renderTexts ms).toList (members ms ++ ['\x7d']) := by
    unfold renderTexts
    rw [String.toList_ofList]
    exact mark_cons _ _
  cases ms with
  | nil => exact .empty hopen (mark_cons _ _) (List.forall_mem_nil _)
  | cons m ms =>
    exact .members hopen (members_members [] (List.cons_ne_nil m ms)) (List.forall_mem_nil _)

/-- An object of texts is read back. -/
theorem readTexts?_renderTexts (ms : List (String × String)) :
    readTexts? (renderTexts ms) = some ms :=
  readTexts?_eq_some_iff.2 (isObjectOfTexts_renderTexts ms)

/-- Objects with the same text are the same. -/
theorem renderTexts_injective : Function.Injective renderTexts := by
  intro ms ms' h
  have hread := congrArg readTexts? h
  rwa [readTexts?_renderTexts, readTexts?_renderTexts, Option.some_inj] at hread

end Bom
