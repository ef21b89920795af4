import Mathlib.Data.List.DropRight
import Bom.Tables.Settings

/-!
# Which texts are objects of texts

An object of texts is written between braces, with commas between its members and blanks between
any two marks; a member is a name and a text in quotes with a colon between them. `IsObjectOfTexts`
says so without a reader, and the reader accepts just these texts and reads just these members
(`readTexts?_eq_some_iff`).

The reader takes any structured text and is told afterwards that it has to be an object of texts, so
each step of it is looked at only where it gives a text or an object: a character that is escaped, a
text up to its closing quote (`JsonReader.text_eq_some_iff`), a text as a value
(`JsonReader.value_eq_text_iff`), and members up to the closing brace
(`JsonReader.members_eq_some_iff`).
-/

namespace Bom

namespace JsonGrammar

open JsonReader

/-- Blanks, then the given mark, then the rest. -/
def Mark (c : Char) (cs rest : List Char) : Prop :=
  ∃ blanks, (∀ b ∈ blanks, isSpace b = true) ∧ cs = blanks ++ c :: rest

/-- The characters of a text as they are written behind its opening quote, with the closing quote
and the rest. All characters but quotes, backslashes and control characters may stand for
themselves. Half of a surrogate pair stands for no character without the other half. -/
inductive Characters : List Char → List Char → List Char → Prop
  | close (rest : List Char) : Characters ('"' :: rest) [] rest
  | plain {c : Char} {cs chars rest : List Char} (hquote : c ≠ '"') (hbackslash : c ≠ '\\')
      (hcontrol : 0x20 ≤ c.toNat) (h : Characters cs chars rest) :
      Characters (c :: cs) (c :: chars) rest
  | short {e c : Char} {cs chars rest : List Char} (hc : shortEscape? e = some c)
      (h : Characters cs chars rest) : Characters ('\\' :: e :: cs) (c :: chars) rest
  | unit {a b c d : Char} {u : Nat} {cs chars rest : List Char} (hu : unit? a b c d = some u)
      (hhigh : isHighHalf u = false) (hlow : isLowHalf u = false) (h : Characters cs chars rest) :
      Characters ('\\' :: 'u' :: a :: b :: c :: d :: cs) (Char.ofNat u :: chars) rest
  | pair {a b c d e f g i : Char} {u v : Nat} {cs chars rest : List Char}
      (hu : unit? a b c d = some u) (hv : unit? e f g i = some v) (hhigh : isHighHalf u = true)
      (hlow : isLowHalf v = true) (h : Characters cs chars rest) :
      Characters ('\\' :: 'u' :: a :: b :: c :: d :: '\\' :: 'u' :: e :: f :: g :: i :: cs)
        (joinHalves u v :: chars) rest

/-- A text in quotes, with blanks in front, and the rest. -/
def Quoted (cs : List Char) (s : String) (rest : List Char) : Prop :=
  ∃ opened, Mark '"' cs opened ∧ Characters opened s.toList rest

/-- A name, a colon and a text, and the rest. -/
def Member (cs : List Char) (m : String × String) (rest : List Char) : Prop :=
  ∃ named parted, Quoted cs m.1 named ∧ Mark ':' named parted ∧ Quoted parted m.2 rest

/-- Members with commas between them, the closing brace, and the rest. -/
inductive Members : List Char → List (String × String) → List Char → Prop
  | last {cs closing rest : List Char} {m : String × String} (hm : Member cs m closing)
      (hclose : Mark '\x7d' closing rest) : Members cs [m] rest
  | more {cs parting others rest : List Char} {m : String × String} {ms : List (String × String)}
      (hm : Member cs m parting) (hcomma : Mark ',' parting others) (h : Members others ms rest) :
      Members cs (m :: ms) rest

/-- Members begin with the quote of the first name. -/
theorem Members.exists_mark {cs rest : List Char} {ms : List (String × String)}
    (h : Members cs ms rest) : ∃ quoted, Mark '"' cs quoted := by
  cases h with
  | last hm _ | more hm _ _ =>
    obtain ⟨_, _, ⟨quoted, hquoted, -⟩, -⟩ := hm
    exact ⟨quoted, hquoted⟩

end JsonGrammar

open JsonGrammar

/-- The text is an object of the given texts, with nothing but blanks around it. -/
inductive IsObjectOfTexts (s : String) : List (String × String) → Prop
  | empty {opened rest : List Char} (hopen : Mark '\x7b' s.toList opened)
      (hclose : Mark '\x7d' opened rest) (hrest : ∀ b ∈ rest, JsonReader.isSpace b = true) :
      IsObjectOfTexts s []
  | members {opened rest : List Char} {ms : List (String × String)}
      (hopen : Mark '\x7b' s.toList opened) (hms : Members opened ms rest)
      (hrest : ∀ b ∈ rest, JsonReader.isSpace b = true) : IsObjectOfTexts s ms

namespace JsonReader

/-! ## Marks -/

/-- Once the blanks are dropped, a mark stands first. -/
theorem skip_eq_cons_iff {c : Char} (hc : isSpace c = false) {cs rest : List Char} :
    skip cs = c :: rest ↔ Mark c cs rest := by
  unfold skip
  constructor
  · intro h
    refine ⟨cs.takeWhile isSpace, fun b hb => List.all_eq_true.1 List.all_takeWhile b hb, ?_⟩
    rw [← h, List.takeWhile_append_dropWhile]
  · rintro ⟨blanks, hblanks, rfl⟩
    rw [List.dropWhile_append_of_pos hblanks, List.dropWhile_cons, hc, if_neg Bool.false_ne_true]

theorem skip_eq_nil_iff {cs : List Char} : skip cs = [] ↔ ∀ b ∈ cs, isSpace b = true := by
  unfold skip
  rw [List.dropWhile_eq_nil_iff]

/-! ## Texts between quotes -/

/-- A character in front of a text that has been read belongs to it. -/
theorem map_push_eq_some {c : Char} {read : Option (Option (List Char) × List Char)}
    {chars rest : List Char} : read.map (push c) = some (some chars, rest) ↔
      ∃ others, read = some (some others, rest) ∧ chars = c :: others := by
  constructor
  · intro h
    obtain ⟨⟨read, left⟩, rfl, hpush⟩ := Option.map_eq_some_iff.1 h
    obtain ⟨hread, rfl⟩ := Prod.mk.inj hpush
    obtain ⟨others, rfl, rfl⟩ := Option.map_eq_some_iff.1 hread
    exact ⟨others, rfl, rfl⟩
  · rintro ⟨others, rfl, rfl⟩
    rfl

/-- A text with half of a surrogate pair has no characters. -/
theorem map_spoil_ne_some {read : Option (Option (List Char) × List Char)}
    {chars rest : List Char} : read.map spoil ≠ some (some chars, rest) := by
  intro h
  obtain ⟨_, -, hspoil⟩ := Option.map_eq_some_iff.1 h
  cases hspoil

/-- What is read up to a closing quote is written as characters. -/
theorem characters_of_text {cs chars rest : List Char} (h : text cs = some (some chars, rest)) :
    Characters cs chars rest := by
  fun_induction text cs generalizing chars rest with
  | case1 =>
    cases h
    exact .close _
  | case2 | case3 | case8 | case12 | case13 | case15 => cases h
  | case4 _ _ _ _ _ _ _ _ _ _ hu hhigh _ hv hlow ih =>
    obtain ⟨others, hread, rfl⟩ := map_push_eq_some.1 h
    exact .pair hu hv hhigh hlow (ih hread)
  | case5 | case6 | case9 => exact absurd h map_spoil_ne_some
  | case7 _ _ _ _ _ _ _ _ _ _ hu hhigh hlow ih =>
    obtain ⟨others, hread, rfl⟩ := map_push_eq_some.1 h
    exact .unit hu (Bool.eq_false_iff.2 hhigh) (Bool.eq_false_iff.2 hlow) (ih hread)
  | case10 _ _ _ _ _ _ _ hu hhalf ih =>
    obtain ⟨others, hread, rfl⟩ := map_push_eq_some.1 h
    obtain ⟨hhigh, hlow⟩ := Bool.or_eq_false_iff.1 (Bool.eq_false_iff.2 hhalf)
    exact .unit hu hhigh hlow (ih hread)
  | case11 _ _ _ _ _ hc ih =>
    obtain ⟨others, hread, rfl⟩ := map_push_eq_some.1 h
    exact .short hc (ih hread)
  | case14 c _ hquote _ _ _ hplain ih =>
    obtain ⟨others, hread, rfl⟩ := map_push_eq_some.1 h
    obtain ⟨hcontrol, hbackslash⟩ := not_or.1 hplain
    exact .plain hquote hbackslash (Nat.le_of_not_lt hcontrol) (ih hread)

/-- A character with a short escape is read off it. -/
theorem text_short {e c : Char} (h : shortEscape? e = some c) (rest : List Char) :
    text ('\\' :: e :: rest) = (text rest).map (push c) := by
  have hunit : e ≠ 'u' := by
    rintro rfl
    cases h
  simp [text, hunit, h]

/-- A character is read off the unit that names it, whether another unit follows or not. -/
theorem text_unit {a b c d : Char} {u : Nat} (h : unit? a b c d = some u)
    (hhigh : isHighHalf u = false) (hlow : isLowHalf u = false) (rest : List Char) :
    text ('\\' :: 'u' :: a :: b :: c :: d :: rest) = (text rest).map (push (Char.ofNat u)) := by
  by_cases hmore : ∃ e f g i more, rest = '\\' :: 'u' :: e :: f :: g :: i :: more
  · obtain ⟨e, f, g, i, more, rfl⟩ := hmore
    rw [text, h]
    simp [hhigh, hlow]
  · have hend (e f g i : Char) (more : List Char) :
        rest = '\\' :: 'u' :: e :: f :: g :: i :: more → False :=
      fun heq => hmore ⟨e, f, g, i, more, heq⟩
    rw [text]
    · simp [h, hhigh, hlow]
    · exact hend

/-- A text is read just when it is written as characters up to the closing quote. -/
theorem text_eq_some_iff {cs chars rest : List Char} :
    text cs = some (some chars, rest) ↔ Characters cs chars rest := by
  refine ⟨characters_of_text, fun h => ?_⟩
  induction h with
  | close rest => simp [text]
  | plain hquote hbackslash hcontrol _ ih =>
    simp [text, hbackslash, ih, Nat.not_lt.2 hcontrol, push]
  | short hc _ ih =>
    rw [text_short hc, ih]
    rfl
  | unit hu hhigh hlow _ ih =>
    rw [text_unit hu hhigh hlow, ih]
    rfl
  | pair hu hv hhigh hlow _ ih =>
    rw [text, hu]
    simp [hhigh, hv, hlow, ih, push]

/-! ## Values and members -/

/-- Blanks in front of members are skipped. -/
theorem members_skip (n : Nat) (cs : List Char) : members n (skip cs) = members n cs := by
  have hskip : skip (skip cs) = skip cs := List.dropWhile_idempotent _ _
  cases n with
  | zero => rw [members, members]
  | succ n => rw [members, members, hskip]

/-- What is read as a value is a text in quotes, an object between braces, or neither. -/
theorem value_cases {n : Nat} {cs rest : List Char} {j : Json}
    (h : value (n + 1) cs = some (j, rest)) :
    (∃ opened read, Mark '"' cs opened ∧ text opened = some (read, rest) ∧
        j = .text (read.map String.ofList)) ∨
      (∃ opened ms, Mark '\x7b' cs opened ∧ j = .object ms ∧
        (Mark '\x7d' opened rest ∧ ms = [] ∨ members n opened = some (ms, rest))) ∨
      (∀ s, j ≠ .text s) ∧ ∀ ms, j ≠ .object ms := by
  rw [value] at h
  split at h
  next opened hopened =>
    obtain ⟨⟨read, left⟩, hread, heq⟩ := Option.map_eq_some_iff.1 h
    obtain ⟨rfl, rfl⟩ := Prod.mk.inj heq
    exact .inl ⟨opened, read, (skip_eq_cons_iff rfl).1 hopened, hread, rfl⟩
  next =>
    split at h
    next =>
      cases h
      exact .inr (.inr ⟨nofun, nofun⟩)
    next =>
      obtain ⟨_, -, heq⟩ := Option.map_eq_some_iff.1 h
      cases heq
      exact .inr (.inr ⟨nofun, nofun⟩)
  next opened hopened =>
    have hmark := (skip_eq_cons_iff rfl).1 hopened
    split at h
    next hclose =>
      cases h
      exact .inr (.inl ⟨opened, [], hmark, rfl, .inl ⟨(skip_eq_cons_iff rfl).1 hclose, rfl⟩⟩)
    next =>
      obtain ⟨⟨ms, left⟩, hms, heq⟩ := Option.map_eq_some_iff.1 h
      obtain ⟨rfl, rfl⟩ := Prod.mk.inj heq
      rw [members_skip] at hms
      exact .inr (.inl ⟨opened, ms, hmark, rfl, .inr hms⟩)
  all_goals
    obtain ⟨_, -, heq⟩ := Option.map_eq_some_iff.1 h
    cases heq
    exact .inr (.inr ⟨nofun, nofun⟩)

/-- A text is read as a value just when it stands in quotes. -/
theorem value_eq_text_iff {n : Nat} {cs rest : List Char} {s : String} :
    value (n + 1) cs = some (.text (some s), rest) ↔ Quoted cs s rest := by
  constructor
  · intro h
    rcases value_cases h with ⟨opened, read, hopened, hread, hs⟩ | ⟨_, _, -, hs, -⟩ | ⟨hs, -⟩
    · obtain ⟨chars, rfl, rfl⟩ := Option.map_eq_some_iff.1 (Json.text.inj hs).symm
      refine ⟨opened, hopened, ?_⟩
      rw [String.toList_ofList]
      exact text_eq_some_iff.1 hread
    · cases hs
    · exact absurd rfl (hs _)
  · rintro ⟨opened, hopened, hchars⟩
    rw [value, (skip_eq_cons_iff rfl).2 hopened]
    simp [text_eq_some_iff.2 hchars]

theorem expect_eq_some_iff {c : Char} {cs rest : List Char} :
    Text.expect c cs = some rest ↔ cs = c :: rest := by
  cases cs with
  | nil => simp [Text.expect]
  | cons d cs => simp [Text.expect]

/-- Members are read one after the other: a name in quotes, a colon, a value, and then the closing
brace or a comma and the other members. -/
theorem members_succ_iff {n : Nat} {cs rest : List Char} {entries : List (Option String × Json)} :
    members (n + 1) cs = some (entries, rest) ↔ ∃ opened name named parted first valued,
      Mark '"' cs opened ∧ text opened = some (name, named) ∧ Mark ':' named parted ∧
      value n parted = some (first, valued) ∧
      (Mark '\x7d' valued rest ∧ entries = [(name.map String.ofList, first)] ∨
        ∃ parting others, Mark ',' valued parting ∧ members n parting = some (others, rest) ∧
          entries = (name.map String.ofList, first) :: others) := by
  have hquote : isSpace '"' = false := rfl
  constructor
  · intro h
    rw [members] at h
    split at h
    next opened hopened =>
      simp only [Option.bind_eq_bind, Option.bind_eq_some_iff, Prod.exists, expect_eq_some_iff] at h
      obtain ⟨name, named, hname, parted, hparted, first, valued, hfirst, h⟩ := h
      refine ⟨opened, name, named, parted, first, valued, (skip_eq_cons_iff rfl).1 hopened, hname,
        (skip_eq_cons_iff rfl).1 hparted, hfirst, ?_⟩
      split at h
      next hclose =>
        cases h
        exact .inl ⟨(skip_eq_cons_iff rfl).1 hclose, rfl⟩
      next parting hcomma =>
        obtain ⟨⟨others, left⟩, hothers, heq⟩ := Option.bind_eq_some_iff.1 h
        cases heq
        exact .inr ⟨parting, others, (skip_eq_cons_iff rfl).1 hcomma, hothers, rfl⟩
      next => cases h
    next => cases h
  · rintro ⟨opened, name, named, parted, first, valued, hopened, hname, hparted, hfirst, hend⟩
    rw [members, (skip_eq_cons_iff rfl).2 hopened]
    rcases hend with ⟨hclose, rfl⟩ | ⟨parting, others, hcomma, hothers, rfl⟩
    · simp [hname, (skip_eq_cons_iff rfl).2 hparted, Text.expect, hfirst,
        (skip_eq_cons_iff rfl).2 hclose]
    · simp [hname, (skip_eq_cons_iff rfl).2 hparted, Text.expect, hfirst,
        (skip_eq_cons_iff rfl).2 hcomma, hothers]

/-- The entry of a member whose text is a text. -/
def textEntry (m : String × String) : Option String × Json := (some m.1, .text (some m.2))

theorem textEntry_eq_iff {name : Option (List Char)} {j : Json} {m : String × String} :
    (name.map String.ofList, j) = textEntry m ↔
      name = some m.1.toList ∧ j = .text (some m.2) := by
  unfold textEntry
  rw [Prod.mk.injEq, Option.map_eq_some_iff]
  refine and_congr_left fun _ => ⟨?_, fun h => ⟨_, h, String.ofList_toList⟩⟩
  rintro ⟨chars, rfl, hname⟩
  rw [← hname, String.toList_ofList]

/-- A member whose value is a text is read just when it is a name, a colon and a text. -/
theorem member_iff {n : Nat} {cs rest : List Char} {m : String × String} :
    Member cs m rest ↔ ∃ opened named parted, Mark '"' cs opened ∧
      text opened = some (some m.1.toList, named) ∧ Mark ':' named parted ∧
      value (n + 1) parted = some (.text (some m.2), rest) := by
  simp only [text_eq_some_iff, value_eq_text_iff]
  constructor
  · rintro ⟨named, parted, ⟨opened, hopened, hname⟩, hparted, hvalue⟩
    exact ⟨opened, named, parted, hopened, hname, hparted, hvalue⟩
  · rintro ⟨opened, named, parted, hopened, hname, hparted, hvalue⟩
    exact ⟨named, parted, ⟨opened, hopened, hname⟩, hparted, hvalue⟩

/-- What is read as members whose values are texts is written as such members. -/
theorem members_of_read {n : Nat} {cs rest : List Char} {ms : List (String × String)}
    (h : members n cs = some (ms.map textEntry, rest)) : Members cs ms rest ∧ ms.length < n := by
  induction n generalizing cs ms with
  | zero =>
    rw [members] at h
    cases h
  | succ n ih =>
    obtain ⟨opened, name, named, parted, first, valued, hopened, hname, hparted, hfirst, hend⟩ :=
      members_succ_iff.1 h
    cases ms with
    | nil => rcases hend with ⟨-, hms⟩ | ⟨_, _, -, -, hms⟩ <;> cases hms
    | cons m ms =>
      have hentry : (name.map String.ofList, first) = textEntry m := by
        rcases hend with ⟨-, hms⟩ | ⟨_, _, -, -, hms⟩ <;> exact (List.cons.inj hms).1.symm
      obtain ⟨rfl, rfl⟩ := textEntry_eq_iff.1 hentry
      obtain _ | n := n
      · rw [value] at hfirst
        cases hfirst
      have hm : Member cs m valued :=
        member_iff.2 ⟨opened, named, parted, hopened, hname, hparted, hfirst⟩
      rcases hend with ⟨hclose, hms⟩ | ⟨parting, others, hcomma, hothers, hms⟩
      · obtain rfl := List.map_eq_nil_iff.1 (List.cons.inj hms).2
        exact ⟨.last hm hclose, by simp⟩
      · rw [← (List.cons.inj hms).2] at hothers
        obtain ⟨hmore, hlength⟩ := ih hothers
        exact ⟨.more hm hcomma hmore, Nat.succ_lt_succ hlength⟩

/-- Members whose values are texts are read just when they are written up to the closing brace, and
there are steps enough for them. -/
theorem members_eq_some_iff {n : Nat} {cs rest : List Char} {ms : List (String × String)} :
    members n cs = some (ms.map textEntry, rest) ↔ Members cs ms rest ∧ ms.length < n := by
  constructor
  · exact members_of_read
  rintro ⟨h, hn⟩
  induction h generalizing n with
  | last hm hclose =>
    obtain ⟨n, rfl⟩ : ∃ k, n = k + 2 := ⟨n - 2, by simp at hn; omega⟩
    obtain ⟨opened, named, parted, hopened, hname, hparted, hvalue⟩ := (member_iff (n := n)).1 hm
    exact members_succ_iff.2 ⟨opened, _, named, parted, _, _, hopened, hname, hparted, hvalue,
      .inl ⟨hclose, by simp [textEntry]⟩⟩
  | more hm hcomma _ ih =>
    obtain ⟨n, rfl⟩ : ∃ k, n = k + 2 := ⟨n - 2, by simp at hn; omega⟩
    obtain ⟨opened, named, parted, hopened, hname, hparted, hvalue⟩ := (member_iff (n := n)).1 hm
    exact members_succ_iff.2 ⟨opened, _, named, parted, _, _, hopened, hname, hparted, hvalue,
      .inr ⟨_, _, hcomma, ih (Nat.lt_of_succ_lt_succ hn), by simp [textEntry]⟩⟩

/-- Members are read between braces as an object. -/
theorem value_eq_object_iff {n : Nat} {cs rest : List Char} {ms : List (String × String)} :
    value (n + 1) cs = some (.object (ms.map textEntry), rest) ↔ ∃ opened, Mark '\x7b' cs opened ∧
      (Mark '\x7d' opened rest ∧ ms = [] ∨ Members opened ms rest ∧ ms.length < n) := by
  constructor
  · intro h
    rcases value_cases h with ⟨_, _, -, -, hms⟩ | ⟨opened, _, hopened, hms, hend⟩ | ⟨-, hms⟩
    · cases hms
    · cases hms
      rw [members_eq_some_iff, List.map_eq_nil_iff] at hend
      exact ⟨opened, hopened, hend⟩
    · exact absurd rfl (hms _)
  · rintro ⟨opened, hopened, hend⟩
    rw [value, (skip_eq_cons_iff rfl).2 hopened]
    rcases hend with ⟨hclose, rfl⟩ | hms
    · simp [(skip_eq_cons_iff rfl).2 hclose]
    · have hread := members_eq_some_iff.2 hms
      obtain ⟨quoted, hquoted⟩ := hms.1.exists_mark
      rw [← members_skip, (skip_eq_cons_iff rfl).2 hquoted] at hread
      simp [(skip_eq_cons_iff rfl).2 hquoted, hread]

end JsonReader

/-! ## Objects of texts -/

namespace JsonGrammar

variable {cs rest : List Char}

theorem Mark.length_lt {c : Char} (h : Mark c cs rest) : rest.length < cs.length := by
  obtain ⟨blanks, -, rfl⟩ := h
  simp
  omega

theorem Characters.length_lt {chars : List Char} (h : Characters cs chars rest) :
    rest.length < cs.length := by
  induction h with
  | close => simp
  | plain | short | unit | pair => simp; omega

theorem Quoted.length_lt {s : String} (h : Quoted cs s rest) : rest.length < cs.length := by
  obtain ⟨opened, hopened, hchars⟩ := h
  exact hchars.length_lt.trans hopened.length_lt

theorem Member.length_lt {m : String × String} (h : Member cs m rest) :
    rest.length < cs.length := by
  obtain ⟨named, parted, hname, hparted, hvalue⟩ := h
  exact hvalue.length_lt.trans (hparted.length_lt.trans hname.length_lt)

/-- Each member takes a character. -/
theorem Members.length_le {ms : List (String × String)} (h : Members cs ms rest) :
    ms.length ≤ cs.length := by
  induction h with
  | last hm _ => exact Nat.one_le_of_lt hm.length_lt
  | more hm hcomma _ ih =>
    exact Nat.lt_of_le_of_lt ih (hcomma.length_lt.trans hm.length_lt)

end JsonGrammar

open JsonReader

/-- What a whole text holds is a value with nothing but blanks around it. -/
theorem readJson?_eq_some_iff {s : String} {j : Json} :
    readJson? s = some j ↔ ∃ rest, value (s.toList.length + 1) s.toList = some (j, rest) ∧
      ∀ b ∈ rest, isSpace b = true := by
  unfold readJson?
  simp only [List.isEmpty_iff, skip_eq_nil_iff]
  constructor
  · intro h
    split at h
    next v rest hv =>
      obtain ⟨hrest, hj⟩ := Option.ite_none_right_eq_some.1 h
      cases hj
      exact ⟨rest, hv, hrest⟩
    next => cases h
  · rintro ⟨rest, hv, hrest⟩
    rw [hv]
    exact if_pos hrest

/-- A list is read item by item as the list that is written so, if each item is. -/
theorem mapM_eq_some_iff {α β : Type} {read? : α → Option β} (write : β → α)
    (h : ∀ a b, read? a = some b ↔ a = write b) {as : List α} {bs : List β} :
    as.mapM read? = some bs ↔ as = bs.map write := by
  induction as generalizing bs with
  | nil => cases bs <;> simp
  | cons a as ih =>
    rw [List.mapM_cons]
    simp only [Option.bind_eq_bind, Option.bind_eq_some_iff, Option.pure_def, Option.some_inj, h,
      ih]
    constructor
    · rintro ⟨b, rfl, others, rfl, rfl⟩
      rfl
    · intro hwritten
      cases bs with
      | nil => cases hwritten
      | cons b bs =>
        obtain ⟨rfl, rfl⟩ := List.cons.inj hwritten
        exact ⟨b, rfl, bs, rfl, rfl⟩

/-- A text is an object of texts if it holds an object and all values in it are texts. -/
theorem readTexts?_eq_some {s : String} {ms : List (String × String)} :
    readTexts? s = some ms ↔ readJson? s = some (.object (ms.map textEntry)) := by
  unfold readTexts?
  split
  next members hmembers =>
    rw [hmembers, mapM_eq_some_iff textEntry, Option.some_inj, Json.object.injEq]
    rintro ⟨name, j⟩ ⟨key, value⟩
    rw [Option.bind_eq_bind, Option.bind_eq_some_iff, textEntry, Prod.mk.injEq]
    constructor
    · rintro ⟨name, rfl, h⟩
      split at h
      next =>
        cases h
        exact ⟨rfl, rfl⟩
      next => cases h
    · rintro ⟨rfl, rfl⟩
      exact ⟨key, rfl, rfl⟩
  next hother =>
    refine ⟨nofun, fun h => absurd h (hother _)⟩

/-- A text is read as an object of texts just when it is one. -/
theorem readTexts?_eq_some_iff {s : String} {ms : List (String × String)} :
    readTexts? s = some ms ↔ IsObjectOfTexts s ms := by
  rw [readTexts?_eq_some, readJson?_eq_some_iff]
  simp only [value_eq_object_iff]
  constructor
  · rintro ⟨rest, ⟨opened, hopened, ⟨hclose, rfl⟩ | ⟨hms, -⟩⟩, hrest⟩
    · exact .empty hopened hclose hrest
    · exact .members hopened hms hrest
  · rintro (⟨hopened, hclose, hrest⟩ | ⟨hopened, hms, hrest⟩)
    · exact ⟨_, ⟨_, hopened, .inl ⟨hclose, rfl⟩⟩, hrest⟩
    · exact ⟨_, ⟨_, hopened, .inr ⟨hms, hms.length_le.trans_lt hopened.length_lt⟩⟩, hrest⟩

end Bom
