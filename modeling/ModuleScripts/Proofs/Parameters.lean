import Mathlib.Data.List.Nodup
import Mathlib.Data.List.Perm.Subperm
import ModuleScripts.Output.Amd

/-!
# Parameters of dependencies

The parameter of a dependency is a name that no earlier one has. The search for
it tries one numbered name more than there are names taken, so that it ends at a
free one although the numbered name of one specifier can be the plain name of
another. Every parameter is an underscore before at least one character of an
identifier.
-/

namespace ModuleScripts

/-- A text that can be a parameter: an underscore and more characters of an
identifier. -/
def IsParameter (name : Text) : Prop :=
  ∃ r, name = '_' :: r ∧ r ≠ [] ∧ ∀ c ∈ r, isIdentifierPart c = true

/-- A parameter name may go on with what continues an identifier. -/
theorem IsParameter.append {name digits : Text} (h : IsParameter name)
    (hd : ∀ c ∈ digits, isIdentifierPart c = true) : IsParameter (name ++ digits) := by
  obtain ⟨r, rfl, hne, hr⟩ := h
  refine ⟨r ++ digits, rfl, List.append_ne_nil_of_left_ne_nil hne digits, fun c hc => ?_⟩
  rcases List.mem_append.1 hc with hc | hc
  · exact hr c hc
  · exact hd c hc

/-- The object of the exports has the name of a parameter. -/
theorem exportsObject_isParameter : IsParameter FactoryLine.exportsObject :=
  ⟨"exports".toList, rfl, by decide, by decide⟩

/-- No two numbers are written alike. -/
theorem Text.ofNat_injective : Function.Injective Text.ofNat := by
  intro m n h
  have hr := congrArg (Nat.ofDigitChars 10 · 0) h
  simpa only [Text.ofNat, Nat.ofDigitChars_ten_toDigits] using hr

/-- A decimal digit can stand in an identifier. -/
theorem Text.isIdentifierPart_of_mem_ofNat {n : Nat} {c : Char} (h : c ∈ Text.ofNat n) :
    isIdentifierPart c = true := by
  have hd : c.isDigit = true := Nat.isDigit_of_mem_toDigits (by decide) (by decide) h
  simp only [Char.isDigit, Bool.and_eq_true, decide_eq_true_eq] at hd
  have hrange : '0' ≤ c ∧ c ≤ '9' := hd
  have hlt : c.toNat < 128 := Nat.lt_of_le_of_lt hrange.2 (by decide)
  have hword : isWord c = true := by
    simp [isWord, hlt, isAsciiDigit, hrange.1, hrange.2]
  simp [isIdentifierPart, hword]

namespace Dependency

/-- The name made of a specifier is that of a parameter. -/
theorem paramBase_isParameter (specifier : Text) : IsParameter (paramBase specifier) := by
  by_cases he : (stem specifier).isEmpty = true
  · exact ⟨"dep".toList, by simp only [paramBase, he, if_true], by decide, by decide⟩
  · refine ⟨(stem specifier).map fun c => if isIdentifierPart c then c else '_', ?_, ?_, ?_⟩
    · simp only [paramBase, he]
      rfl
    · simpa using he
    · intro c hc
      obtain ⟨d, -, rfl⟩ := List.mem_map.1 hc
      by_cases hd : isIdentifierPart d = true
      · rw [if_pos hd]
        exact hd
      · rw [if_neg hd]
        rfl

/-- The numbered forms of a name differ. -/
theorem numbered_injective (base : Text) :
    Function.Injective fun n => base ++ Text.ofNat (n + 2) := by
  intro m n h
  have := Text.ofNat_injective (List.append_cancel_left h)
  omega

/-- Of one more numbered name than there are names taken one is free. -/
theorem exists_numbered_notMem (taken : List Text) (base : Text) :
    ∃ n < taken.length + 1, base ++ Text.ofNat (n + 2) ∉ taken := by
  by_contra hnone
  have hsub :
      (List.range (taken.length + 1)).map (fun n => base ++ Text.ofNat (n + 2)) ⊆ taken := by
    intro name hname
    obtain ⟨n, hn, rfl⟩ := List.mem_map.1 hname
    by_contra hfree
    exact hnone ⟨n, List.mem_range.1 hn, hfree⟩
  have hnodup := List.Nodup.map (numbered_injective base)
    (List.nodup_range (n := taken.length + 1))
  have hlength := (List.subperm_of_subset hnodup hsub).length_le
  simp only [List.length_map, List.length_range] at hlength
  omega

/-- The name that is chosen is the first choice or a numbered form of it, and
it is free. -/
theorem freshName_cases (taken : List Text) (base : Text) :
    (freshName taken base = base ∧ base ∉ taken) ∨
      ∃ n, freshName taken base = base ++ Text.ofNat (n + 2) ∧
        base ++ Text.ofNat (n + 2) ∉ taken := by
  by_cases htaken : taken.contains base = true
  · right
    obtain ⟨n, hn, hfree⟩ := exists_numbered_notMem taken base
    have hsome : (((List.range (taken.length + 1)).map fun n => base ++ Text.ofNat (n + 2)).find?
        fun name => !taken.contains name).isSome := by
      rw [List.find?_isSome]
      exact ⟨_, List.mem_map_of_mem (List.mem_range.2 hn), by simpa using hfree⟩
    obtain ⟨name, hname⟩ := Option.isSome_iff_exists.1 hsome
    obtain ⟨k, -, rfl⟩ := List.mem_map.1 (List.mem_of_find?_eq_some hname)
    refine ⟨k, ?_, by simpa using List.find?_some hname⟩
    simp only [freshName, htaken, if_true, hname, Option.getD_some]
  · left
    refine ⟨by simp only [freshName, htaken]; rfl, by simpa using htaken⟩

/-- A fresh name is not taken. -/
theorem freshName_notMem (taken : List Text) (base : Text) : freshName taken base ∉ taken := by
  rcases freshName_cases taken base with ⟨he, hfree⟩ | ⟨n, he, hfree⟩
  · rwa [he]
  · rwa [he]

/-- Every specifier is given a parameter, in order. -/
@[simp] theorem assignParams_fst (taken specifiers : List Text) :
    (assignParams taken specifiers).map Prod.fst = specifiers := by
  induction specifiers generalizing taken with
  | nil => rfl
  | cons specifier specifiers ih => simp only [assignParams, List.map_cons, ih]

/-- No parameter is one of the names taken before. -/
theorem assignParams_notMem {taken specifiers : List Text} {name : Text}
    (h : name ∈ (assignParams taken specifiers).map Prod.snd) : name ∉ taken := by
  induction specifiers generalizing taken with
  | nil => simp [assignParams] at h
  | cons specifier specifiers ih =>
    simp only [assignParams, List.map_cons, List.mem_cons] at h
    rcases h with rfl | h
    · exact freshName_notMem taken _
    · exact fun hm => ih h (List.mem_cons_of_mem _ hm)

/-- Different places have different parameters. -/
theorem assignParams_nodup (taken specifiers : List Text) :
    ((assignParams taken specifiers).map Prod.snd).Nodup := by
  induction specifiers generalizing taken with
  | nil => exact List.nodup_nil
  | cons specifier specifiers ih =>
    simp only [assignParams, List.map_cons, List.nodup_cons]
    exact ⟨fun hm => assignParams_notMem hm List.mem_cons_self, ih _⟩

/-- Every parameter is the name of its specifier, alone or with a number. -/
theorem exists_of_mem_assignParams {taken specifiers : List Text} {name : Text}
    (h : name ∈ (assignParams taken specifiers).map Prod.snd) :
    ∃ s ∈ specifiers, name = paramBase s ∨ ∃ n, name = paramBase s ++ Text.ofNat (n + 2) := by
  induction specifiers generalizing taken with
  | nil => simp [assignParams] at h
  | cons specifier specifiers ih =>
    simp only [assignParams, List.map_cons, List.mem_cons] at h
    rcases h with rfl | h
    · refine ⟨specifier, List.mem_cons_self, ?_⟩
      rcases freshName_cases taken (paramBase specifier) with ⟨he, -⟩ | ⟨n, he, -⟩
      · exact .inl he
      · exact .inr ⟨n, he⟩
    · obtain ⟨s, hs, hname⟩ := ih h
      exact ⟨s, List.mem_cons_of_mem _ hs, hname⟩

/-- Every name that is given is that of a parameter. -/
theorem assignParams_isParameter {taken specifiers : List Text} {name : Text}
    (h : name ∈ (assignParams taken specifiers).map Prod.snd) : IsParameter name := by
  obtain ⟨s, -, rfl | ⟨n, rfl⟩⟩ := exists_of_mem_assignParams h
  · exact paramBase_isParameter s
  · exact (paramBase_isParameter s).append fun c hc => Text.isIdentifierPart_of_mem_ofNat hc

end Dependency

end ModuleScripts
