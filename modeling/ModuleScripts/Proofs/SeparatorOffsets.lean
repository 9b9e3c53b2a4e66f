import ModuleScripts.Proofs.FrameNesting
import ModuleScripts.Proofs.VariableDeclaration

/-!
# Where a variable export is cut

A variable export is cut at every comma that is code and stands outside all brackets, up
to the first such semicolon, and nowhere else. Put together again with commas, its
declarators are the text between its keyword and this semicolon. Without one they are all
of the text, which then leaves nothing open and does not end with a character that asks
for more.
-/

namespace ModuleScripts

/-- Whether a character opens a bracket. -/
def isOpening (c : Char) : Bool := ['(', '[', '{'].contains c

/-- Whether a character closes a bracket. -/
def isClosing (c : Char) : Bool := [')', ']', '}'].contains c

/-- A bracket counts one up or one down, and nothing else counts. -/
theorem bracketStep_eq (c : Char) :
    bracketStep c = (if isOpening c then 1 else 0) - (if isClosing c then 1 else 0) := by
  by_cases hopen : c = '(' ∨ c = '[' ∨ c = '{'
  · rcases hopen with rfl | rfl | rfl <;> rfl
  · by_cases hclose : c = ')' ∨ c = ']' ∨ c = '}'
    · rcases hclose with rfl | rfl | rfl <;> rfl
    · simp only [bracketStep, isOpening, isClosing]
      simp_all

namespace Lexer

/-- The characters of top-level code among the first of a text. -/
def codeBefore (t : Text) (i : Nat) : Text :=
  (((marked [] t).take i).filter Prod.snd).map Prod.fst

/-- The depth of an offset: how many brackets the code in front of it opens, without those
that it closes. -/
def depthAt (t : Text) (i : Nat) : Int :=
  (codeBefore t i).countP isOpening - (codeBefore t i).countP isClosing

/-- Whether a separator stands at an offset: it is code, and its depth is zero. -/
def SeparatesAt (t : Text) (c : Char) (i : Nat) : Prop :=
  i ∈ codeOffsets [] t ∧ t[i]? = some c ∧ depthAt t i = 0

/-- Whether a character is the last of the code that is not blank. -/
def IsLastVisible (t : Text) (c : Char) : Prop :=
  ∃ i ∈ codeOffsets [] t, t[i]? = some c ∧ isBlank c = false ∧
    ∀ j ∈ codeOffsets [] t, i < j → ∀ d, t[j]? = some d → isBlank d = true

/-- The depth behind marked characters counts the brackets among the code. -/
theorem finalDepth_eq_countP (m : List (Char × Bool)) :
    finalDepth m = (((m.filter Prod.snd).map Prod.fst).countP isOpening : Int) -
      ((m.filter Prod.snd).map Prod.fst).countP isClosing := by
  induction m with
  | nil => rfl
  | cons head r ih =>
    obtain ⟨c, mark⟩ := head
    cases mark with
    | false => simpa [finalDepth] using ih
    | true =>
      simp only [finalDepth, ih, bracketStep_eq, List.filter_cons, List.map_cons, List.countP_cons,
        if_true]
      split <;> split <;> omega

/-- The depth of an offset is that behind the characters before it. -/
theorem depthAt_eq (t : Text) (i : Nat) : depthAt t i = finalDepth ((marked [] t).take i) :=
  (finalDepth_eq_countP _).symm

/-- The depth of the end is that behind all characters. -/
theorem depthAt_length (t : Text) : depthAt t t.length = finalDepth (marked [] t) := by
  rw [depthAt_eq, List.take_of_length_le]
  rw [marked, List.length_zip, length_marks, Nat.min_self]

/-- A character at an offset of the code is a marked one. -/
theorem getElem?_marked_iff {t : Text} {c : Char} {i : Nat} :
    (marked [] t)[i]? = some (c, true) ↔ i ∈ codeOffsets [] t ∧ t[i]? = some c := by
  rw [mem_codeOffsets_iff, marked, List.getElem?_zip_eq_some]
  exact And.comm

/-- The last element that fits stands at an offset behind which none does. -/
theorem getLast?_filter_eq_some_iff {α : Type} {p : α → Bool} {l : List α} {x : α} :
    (l.filter p).getLast? = some x ↔
      ∃ i : Nat, l[i]? = some x ∧ p x = true ∧
        ∀ j y, i < j → l[j]? = some y → p y = false := by
  rw [List.getLast?_filter, List.find?_eq_some_iff_append]
  constructor
  · rintro ⟨hx, behind, before, hsplit, hbehind⟩
    have hl : l = before.reverse ++ x :: behind.reverse := by
      rw [← List.reverse_reverse l, hsplit]
      simp
    refine ⟨before.reverse.length, by rw [hl]; simp, hx, fun j y hj hy => ?_⟩
    rw [hl, List.getElem?_append_right hj.le, List.getElem?_cons,
      if_neg (Nat.sub_ne_zero_of_lt hj)] at hy
    have hmem : y ∈ behind := List.mem_reverse.1 (List.mem_of_getElem? hy)
    simpa using hbehind y hmem
  · rintro ⟨i, hi, hx, hlast⟩
    obtain ⟨hlt, rfl⟩ := List.getElem?_eq_some_iff.1 hi
    refine ⟨hx, (l.drop (i + 1)).reverse, (l.take i).reverse, ?_, fun y hy => ?_⟩
    · conv_lhs => rw [← List.take_append_drop i l, List.drop_eq_getElem_cons hlt]
      simp
    · obtain ⟨k, hk⟩ := List.mem_iff_getElem?.1 (List.mem_reverse.1 hy)
      rw [List.getElem?_drop] at hk
      simpa using hlast _ y (by omega) hk

/-- The character that decides whether a list goes on is the last visible one of its code. -/
theorem lastCode?_eq_some_iff {t : Text} {c : Char} :
    lastCode? (marked [] t) = some c ↔ IsLastVisible t c := by
  simp only [lastCode?, Option.map_eq_some_iff, getLast?_filter_eq_some_iff, Prod.exists]
  constructor
  · rintro ⟨d, mark, ⟨i, hi, hfits, hlast⟩, rfl⟩
    obtain ⟨rfl, hblank⟩ : mark = true ∧ isBlank d = false := by simpa using hfits
    obtain ⟨hcode, hget⟩ := getElem?_marked_iff.1 hi
    refine ⟨i, hcode, hget, hblank, fun j hj hij e he => ?_⟩
    simpa using hlast j (e, true) hij (getElem?_marked_iff.2 ⟨hj, he⟩)
  · rintro ⟨i, hcode, hget, hblank, hlast⟩
    refine ⟨c, true, ⟨i, getElem?_marked_iff.2 ⟨hcode, hget⟩, by simp [hblank], ?_⟩, rfl⟩
    rintro j ⟨e, mark⟩ hij he
    cases mark with
    | false => rfl
    | true =>
      obtain ⟨hj, he⟩ := getElem?_marked_iff.1 he
      simp [hlast j hj hij e he]

end Lexer

namespace Pieces

/-- The offsets of the commas that join texts, the first of which starts at an offset. -/
def joints (start : Nat) : List Text → List Nat
  | [] => []
  | [_] => []
  | t :: next :: others => (start + t.length) :: joints (start + t.length + 1) (next :: others)

/-- The declarators with the commas between them. -/
def body (p : Pieces) : Text := [','].intercalate p.declarators

/-- Whether a walk over marked characters that starts at a depth meets a character at an
offset as code of depth zero. -/
def Meets (depth : Int) (m : List (Char × Bool)) (c : Char) (i : Nat) : Prop :=
  m[i]? = some (c, true) ∧ depth + finalDepth (m.take i) = 0

section Cuts

variable {p : Pieces} {depth : Int} {c d : Char} {mark : Bool} {r : List (Char × Bool)} {i : Nat}

/-- A walk meets its first character where that is code of depth zero. -/
theorem meets_zero : Meets depth ((d, mark) :: r) c 0 ↔ d = c ∧ mark = true ∧ depth = 0 := by
  simp [Meets, finalDepth, and_assoc]

/-- Behind its first character a walk meets what the rest meets at the new
depth. -/
theorem meets_succ : Meets depth ((d, mark) :: r) c (i + 1) ↔
    Meets (depth + if mark then bracketStep d else 0) r c i := by
  simp [Meets, finalDepth, Int.add_assoc]

/-- A walk from the start of a text meets a separator where one stands. -/
theorem meets_marked_iff {t : Text} :
    Meets 0 (Lexer.marked [] t) c i ↔ Lexer.SeparatesAt t c i := by
  rw [Meets, Lexer.SeparatesAt, Lexer.getElem?_marked_iff, Lexer.depthAt_eq, Int.zero_add,
    and_assoc]

/-- A character comes in front of the declarators. -/
theorem body_push (c : Char) (p : Pieces) : (push c p).body = c :: p.body := by
  obtain ⟨first, others, rest⟩ := p
  cases others <;> simp [body, declarators, push]

/-- A separator comes in front of the declarators. -/
theorem body_separate (p : Pieces) : (separate p).body = ',' :: p.body := by
  simp [body, declarators, separate]

/-- A character in front moves the commas by one. -/
theorem joints_push (c : Char) (start : Nat) (p : Pieces) :
    joints start (push c p).declarators = joints (start + 1) p.declarators := by
  obtain ⟨first, others, rest⟩ := p
  cases others <;> simp [declarators, push, joints, Nat.add_right_comm, Nat.add_assoc]

/-- A separator in front is the first comma. -/
theorem joints_separate (start : Nat) (p : Pieces) :
    joints start (separate p).declarators = start :: joints (start + 1) p.declarators := rfl

/-- Declarators that start one later have their commas one later. -/
theorem joints_succ (start : Nat) (texts : List Text) :
    joints (start + 1) texts = (joints start texts).map (· + 1) := by
  induction texts generalizing start with
  | nil => rfl
  | cons t texts ih =>
    cases texts with
    | nil => rfl
    | cons next others =>
      rw [joints, joints, List.map_cons, ← ih, Nat.add_right_comm]

/-- What a walk meets as code of depth zero if the pieces are those that it cuts. -/
structure CutBy (p : Pieces) (depth : Int) (m : List (Char × Bool)) : Prop where
  /-- The commas between the declarators are all that there are so far. -/
  commas : ∀ i < p.body.length, i ∈ joints 0 p.declarators ↔ Meets depth m ',' i
  /-- No semicolon stands among the declarators. -/
  among : ∀ i < p.body.length, ¬Meets depth m ';' i
  /-- If something ends them, it is a semicolon behind them. -/
  behind : p.rest.isSome = true → Meets depth m ';' p.body.length

/-- A semicolon ends the pieces. -/
theorem cutBy_semicolon (rest : Text) : CutBy ⟨[], [], some rest⟩ 0 ((';', true) :: r) :=
  ⟨fun _ hi => absurd hi (Nat.not_lt_zero _), fun _ hi => absurd hi (Nat.not_lt_zero _),
    fun _ => meets_zero.2 ⟨rfl, rfl, rfl⟩⟩

/-- A comma starts another declarator. -/
theorem CutBy.separate (h : p.CutBy 0 r) : (separate p).CutBy 0 ((',', true) :: r) := by
  have hsucc : ∀ c i, Meets 0 ((',', true) :: r) c (i + 1) ↔ Meets 0 r c i := fun _ _ => meets_succ
  constructor
  · rintro (_ | i) hi
    · simp [joints_separate, meets_zero]
    · rw [body_separate] at hi
      simpa [joints_separate, joints_succ, hsucc] using h.commas i (Nat.lt_of_succ_lt_succ hi)
  · rintro (_ | i) hi
    · simp [meets_zero]
    · rw [body_separate] at hi
      rw [hsucc]
      exact h.among i (Nat.lt_of_succ_lt_succ hi)
  · intro hrest
    rw [body_separate, List.length_cons, hsucc]
    exact h.behind hrest

/-- What is no separator of depth zero belongs to the declarator at hand. -/
theorem CutBy.push (hstop : mark = true → depth = 0 → d ∉ Lexer.separators)
    (h : p.CutBy (depth + if mark then bracketStep d else 0) r) :
    (push d p).CutBy depth ((d, mark) :: r) := by
  have hfirst : ∀ c ∈ Lexer.separators, ¬Meets depth ((d, mark) :: r) c 0 := by
    intro c hc hmeets
    obtain ⟨rfl, hmark, hdepth⟩ := meets_zero.1 hmeets
    exact hstop hmark hdepth hc
  constructor
  · rintro (_ | i) hi
    · simpa [joints_push, joints_succ] using hfirst ',' (by decide)
    · rw [body_push] at hi
      simpa [joints_push, joints_succ, meets_succ] using h.commas i (Nat.lt_of_succ_lt_succ hi)
  · rintro (_ | i) hi
    · exact hfirst ';' (by decide)
    · rw [body_push] at hi
      rw [meets_succ]
      exact h.among i (Nat.lt_of_succ_lt_succ hi)
  · intro hrest
    rw [body_push, List.length_cons, meets_succ]
    exact h.behind hrest

/-- The pieces are cut at the separators that the walk meets. -/
theorem cutBy_cut (depth : Int) (m : List (Char × Bool)) : (cut depth m).CutBy depth m := by
  induction m generalizing depth with
  | nil =>
    exact ⟨fun _ hi => absurd hi (Nat.not_lt_zero _), fun _ hi => absurd hi (Nat.not_lt_zero _),
      fun hrest => nomatch hrest⟩
  | cons head r ih =>
    obtain ⟨d, mark⟩ := head
    by_cases hstop : mark = true → depth = 0 → d ∉ Lexer.separators
    · rw [cut_cons hstop]
      exact (ih _).push hstop
    · obtain ⟨rfl, rfl, hd⟩ : mark = true ∧ depth = 0 ∧ d ∈ Lexer.separators := by tauto
      rcases List.mem_pair.1 hd with rfl | rfl
      · exact (ih 0).separate
      · exact cutBy_semicolon _

/-- The pieces are the declarators and what ends them. -/
theorem join_eq (p : Pieces) : p.join = p.body ++ ending p.rest := by
  obtain ⟨first, others, rest⟩ := p
  have hjoin : ∀ first, first ++ others.flatMap (',' :: ·) = [','].intercalate (first :: others) := by
    induction others with
    | nil => simp
    | cons next others ih =>
      intro first
      rw [List.intercalate_cons_cons, ← ih next]
      simp
  rw [join, body, declarators, ← hjoin]

/-- A comma stands before the end of the declarators. -/
theorem lt_of_mem_joints {start : Nat} {texts : List Text} (h : i ∈ joints start texts) :
    i < start + ([','].intercalate texts).length := by
  induction texts generalizing start with
  | nil => cases h
  | cons t texts ih =>
    cases texts with
    | nil => cases h
    | cons next others =>
      have hlength : ([','].intercalate (t :: next :: others)).length =
          t.length + 1 + ([','].intercalate (next :: others)).length := by
        rw [List.intercalate_cons_cons, List.length_append, List.length_append,
          List.length_singleton]
      rcases List.mem_cons.1 h with rfl | h
      · omega
      · have hlt := ih h
        omega

end Cuts

/-- The declarators and what ends them are the list. -/
theorem body_cut_append (list : Text) :
    (cut 0 (Lexer.marked [] list)).body ++ ending (cut 0 (Lexer.marked [] list)).rest = list := by
  rw [← join_eq, join_cut, Lexer.map_fst_marked]

/-- A list is cut to its end if no semicolon separates it. -/
theorem rest_cut_eq_none_iff {list : Text} :
    (cut 0 (Lexer.marked [] list)).rest = none ↔ ∀ i, ¬Lexer.SeparatesAt list ';' i := by
  have hcut := cutBy_cut 0 (Lexer.marked [] list)
  have hlist := body_cut_append list
  constructor
  · intro hnone i hstop
    rw [hnone, ending, List.append_nil] at hlist
    have hlt : i < list.length := Lexer.lt_length_of_mem_codeOffsets hstop.1
    rw [← hlist] at hlt
    exact hcut.among i hlt (meets_marked_iff.2 hstop)
  · intro hendless
    cases hrest : (cut 0 (Lexer.marked [] list)).rest with
    | none => rfl
    | some rest =>
      exact absurd (meets_marked_iff.1 (hcut.behind (by rw [hrest]; rfl))) (hendless _)

end Pieces

open Lexer

/-- Whether a list without a semicolon is all there is: it opens no bracket for good, leaves
nothing else open, and the last visible character of its code does not ask for more. -/
structure IsComplete (list : Text) : Prop where
  /-- No bracket is left open. -/
  depth : depthAt list list.length ≤ 0
  /-- No comment and no template is left open. -/
  closed : after [] list = []
  /-- It does not go on. -/
  last : ∃ c, IsLastVisible list c ∧ isContinuation c = false

/-- A list goes on when something is open behind it, or its last visible
character asks for more. -/
theorem continues_iff (list : Text) :
    continues list = true ↔ 0 < depthAt list list.length ∨ after [] list ≠ [] ∨
      (¬∃ c, IsLastVisible list c) ∨ ∃ c, IsLastVisible list c ∧ isContinuation c = true := by
  simp only [continues, Bool.or_eq_true, ← depthAt_length, ← lastCode?_eq_some_iff, or_assoc]
  cases lastCode? (marked [] list) <;> simp

/-- A list that does not go on is complete. -/
theorem isComplete_of_not_continues {list : Text} (h : continues list = false) :
    IsComplete list := by
  have hnot := mt (continues_iff list).2 (by rw [h]; exact Bool.false_ne_true)
  rw [not_or, not_or, not_or, not_not, not_not] at hnot
  obtain ⟨hdepth, hclosed, ⟨c, hlast⟩, hgoes⟩ := hnot
  exact ⟨Int.not_lt.1 hdepth, hclosed, c, hlast,
    Bool.eq_false_iff.2 fun hc => hgoes ⟨c, hlast, hc⟩⟩

namespace Declaration

/-- How a declaration that is cut from a text partitions it. -/
inductive Partitions (d : Declaration) (t list : Text) : Prop where
  /-- It ends behind the first semicolon, in front of which its declarators are the list. -/
  | ended (i : Nat) (stop : SeparatesAt list ';' i) (first : ∀ j < i, ¬SeparatesAt list ';' j)
      (text : d.text = t.take (d.head.length + i + 1))
      (joined : [','].intercalate d.pieces.declarators = list.take i)
      (commas : ∀ j, j ∈ Pieces.joints 0 d.pieces.declarators ↔ j < i ∧ SeparatesAt list ',' j)
  /-- There is no semicolon, and its declarators are all of the list. -/
  | whole (endless : ∀ i, ¬SeparatesAt list ';' i) (text : d.text = t)
      (joined : [','].intercalate d.pieces.declarators = list) (complete : IsComplete list)
      (commas : ∀ j, j ∈ Pieces.joints 0 d.pieces.declarators ↔ SeparatesAt list ',' j)

/-- A cut partitions the list. -/
theorem partitions_cut {head list : Text} {p : Pieces} (hp : p = Pieces.cut 0 (marked [] list))
    (hcomplete : p.rest = none → IsComplete list) :
    (Declaration.mk head p).Partitions (head ++ list) list := by
  have hcut : p.CutBy 0 (marked [] list) := hp ▸ Pieces.cutBy_cut 0 _
  have hlist : p.body ++ Pieces.ending p.rest = list := hp ▸ Pieces.body_cut_append list
  have hcommas : ∀ j < p.body.length,
      j ∈ Pieces.joints 0 p.declarators ↔ SeparatesAt list ',' j :=
    fun j hj => (hcut.commas j hj).trans Pieces.meets_marked_iff
  have hjoints : ∀ j ∈ Pieces.joints 0 p.declarators, j < p.body.length :=
    fun j hj => Nat.zero_add p.body.length ▸ Pieces.lt_of_mem_joints hj
  have htext : (Declaration.mk head p).text =
      head ++ (p.body ++ Pieces.ending (p.rest.map fun _ => [])) :=
    congrArg (head ++ ·) (Pieces.join_eq _)
  cases hrest : p.rest with
  | none =>
    have hbody : p.body = list := by rwa [hrest, Pieces.ending, List.append_nil] at hlist
    refine .whole (Pieces.rest_cut_eq_none_iff.1 (hp ▸ hrest)) ?_ hbody (hcomplete hrest)
      fun j => ⟨fun hj => (hcommas j (hjoints j hj)).1 hj, fun hj => (hcommas j ?_).2 hj⟩
    · rw [htext, hrest, hbody]
      exact congrArg (head ++ ·) (List.append_nil list)
    · rw [hbody]
      exact lt_length_of_mem_codeOffsets hj.1
  | some rest =>
    have hsplit : p.body ++ ';' :: rest = list := by rwa [hrest, Pieces.ending] at hlist
    refine .ended p.body.length
      (Pieces.meets_marked_iff.1 (hcut.behind (by rw [hrest]; rfl)))
      (fun j hj hstop => hcut.among j hj (Pieces.meets_marked_iff.2 hstop)) ?_ ?_
      fun j => ⟨fun hj => ⟨hjoints j hj, (hcommas j (hjoints j hj)).1 hj⟩,
        fun hj => (hcommas j hj.1).2 hj.2⟩
    · rw [htext, hrest, ← hsplit, Nat.add_assoc, List.take_length_add_append,
        List.take_length_add_append]
      rfl
    · rw [← hsplit, List.take_left]
      rfl

/-- The declarators of a text partition what follows its keyword: joined with commas they
are the list up to the first semicolon, or all of it if it is complete without one, and the
commas that join them are all that separate it. A text with such a keyword is refused
exactly if no semicolon ends it and something in it asks for more. -/
theorem split?_partitions (t : Text) :
    (∀ d, split? t = some d →
      ∃ list, t = d.head ++ list ∧ IsVariableHead d.head list ∧ d.Partitions t list) ∧
    ∀ head list, t = head ++ list → IsVariableHead head list →
      (split? t = none ↔ (∀ i, ¬SeparatesAt list ';' i) ∧
        (0 < depthAt list list.length ∨ after [] list ≠ [] ∨
          (¬∃ c, IsLastVisible list c) ∨ ∃ c, IsLastVisible list c ∧ isContinuation c = true)) := by
  refine ⟨fun d h => ?_, fun head list ht hhead => ?_⟩
  · obtain ⟨list, hfound, hpieces, hends⟩ := split?_eq_some_iff.1 h
    obtain ⟨rfl, hhead⟩ := variableHead_eq_some_iff.1 hfound
    refine ⟨list, rfl, hhead, partitions_cut hpieces fun hnone => ?_⟩
    rw [hnone] at hends
    exact isComplete_of_not_continues hends
  · have hfound : variableHead t = some (head, list) := variableHead_eq_some_iff.2 ⟨ht, hhead⟩
    rw [← continues_iff, ← Pieces.rest_cut_eq_none_iff, split?, hfound]
    simp

/-- Commas in brackets and in strings do not cut, and a bracket that is left open asks for
more. -/
theorem split?_partitions_brackets :
    (∃ d list, split? "export const a = [1, 2], b = ',;'; c()".toList = some d ∧
      d.pieces.declarators = [" a = [1, 2]".toList, " b = ',;'".toList] ∧
      d.Partitions "export const a = [1, 2], b = ',;'; c()".toList list) ∧
    ∀ i, ¬SeparatesAt " f = (a,".toList ';' i := by
  have hsplit : split? "export const a = [1, 2], b = ',;'; c()".toList =
      some ⟨"export const".toList,
        ⟨" a = [1, 2]".toList, [" b = ',;'".toList], some " c()".toList⟩⟩ := by
    decide +kernel
  have hopen : split? "export let f = (a,".toList = none := by decide +kernel
  have hhead : IsVariableHead "export let".toList " f = (a,".toList :=
    ⟨[], [' '], "let".toList, by decide, by decide, by decide, rfl, rfl⟩
  obtain ⟨list, -, -, hlist⟩ := (split?_partitions _).1 _ hsplit
  exact ⟨⟨_, list, hsplit, rfl, hlist⟩, (((split?_partitions _).2 _ _ rfl hhead).1 hopen).1⟩

end Declaration

end ModuleScripts
