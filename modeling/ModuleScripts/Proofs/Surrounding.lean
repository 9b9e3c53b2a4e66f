import ModuleScripts.Proofs.Gaps
import ModuleScripts.Proofs.PageMap

/-!
# Blanks around a body

A new body stands between the blanks of the old one. The blanks at the end of a
text are what a search from the left comes to first that reaches the end, even
where it may stop before a final line feed. So a body put in its own place is
the same body, and of nested places only the outermost shows.
-/

namespace ModuleScripts

namespace Text

/-- The text ends here, or only its final line feed is left. -/
def atEnd : Text → Bool
  | [] => true
  | [c] => c == '\n'
  | _ => false

/-- The longest run of blanks from here on behind which the text is at its end. -/
def blanksToEnd? : Text → Option Text
  | [] => some []
  | c :: r =>
    ((if isBlank c then blanksToEnd? r else none).map (c :: ·)).or
      (if atEnd (c :: r) then some [] else none)

/-- The run of blanks up to the end that a search from the left finds first. -/
def searchBlanks? : Text → Option Text
  | [] => blanksToEnd? []
  | c :: r => (blanksToEnd? (c :: r)).or (searchBlanks? r)

section Ends

variable {t blank : Text}

/-- The blanks of a blank text reach to its end. -/
theorem blanksToEnd?_of_blank (h : Blank t) : blanksToEnd? t = some t := by
  induction t with
  | nil => rfl
  | cons c r ih =>
    obtain ⟨hc, hr⟩ := blank_cons.1 h
    rw [blanksToEnd?, if_pos hc, ih hr, Option.map_some, Option.some_or]

/-- A final line feed is blank itself, so no run ends before it and none passes a
visible character. -/
theorem blanksToEnd?_of_not_blank (h : ¬ Blank t) : blanksToEnd? t = none := by
  induction t with
  | nil => exact absurd blank_nil h
  | cons c r ih =>
    rw [blank_cons, not_and] at h
    by_cases hc : isBlank c = true
    · have hr := h hc
      have hne : r ≠ [] := fun he => hr (he ▸ blank_nil)
      obtain ⟨d, r, rfl⟩ := List.exists_cons_of_ne_nil hne
      rw [blanksToEnd?, if_pos hc, ih hr]
      rfl
    · have hend : atEnd (c :: r) = false := by
        cases r with
        | nil => exact beq_false_of_ne fun he => hc (he ▸ rfl)
        | cons d r => rfl
      rw [blanksToEnd?, if_neg hc, hend]
      rfl

/-- Behind a visible character the blanks at the end are all that follows. -/
theorem trailing_append (h : EndsSolid t) (hb : Blank blank) : trailing (t ++ blank) = blank := by
  obtain ⟨start, c, rfl, hc⟩ := h
  have hr : ∀ d ∈ blank.reverse, isBlank d = true := fun d hd => hb d (List.mem_reverse.1 hd)
  have hrev : (start ++ [c] ++ blank).reverse = blank.reverse ++ c :: start.reverse := by simp
  rw [trailing, hrev, List.takeWhile_append_of_pos hr,
    List.takeWhile_cons_of_neg (by simp [hc]), List.append_nil, List.reverse_reverse]

/-- A blank text is all white space at its end. -/
theorem trailing_of_blank (h : Blank t) : trailing t = t := by
  have hr : ∀ c ∈ t.reverse, isBlank c = true := fun c hc => h c (List.mem_reverse.1 hc)
  rw [trailing, List.takeWhile_eq_self_iff.2 hr, List.reverse_reverse]

/-- A text with a visible character ends with one before its last blanks. -/
theorem endsSolid_trimEnd (h : ¬ Blank t) : EndsSolid (trimEnd t) := by
  cases hs : t.reverse.dropWhile isBlank with
  | nil =>
    refine absurd (fun c hc => ?_) h
    exact List.dropWhile_eq_nil_iff.1 hs c (List.mem_reverse.2 hc)
  | cons c r =>
    have hc := List.head?_dropWhile_not isBlank t.reverse
    rw [hs] at hc
    refine ⟨r.reverse, c, ?_, by simpa using hc⟩
    rw [trimEnd, hs, List.reverse_cons]

/-- What is found first is the maximal run of blanks at the end. -/
theorem searchBlanks?_eq (t : Text) : searchBlanks? t = some (trailing t) := by
  induction t with
  | nil => rfl
  | cons c r ih =>
    rw [searchBlanks?]
    by_cases h : Blank (c :: r)
    · rw [blanksToEnd?_of_blank h, trailing_of_blank h]
      rfl
    · rw [blanksToEnd?_of_not_blank h, Option.none_or, ih]
      by_cases hr : Blank r
      · have hc : isBlank c = false := by
          rw [blank_cons, not_and'] at h
          exact Bool.eq_false_iff.2 (h hr)
        have hsingle := trailing_append (endsSolid_singleton hc) hr
        rw [trailing_of_blank hr]
        exact congrArg some hsingle.symm
      · have hsolid := (endsSolid_trimEnd hr).append [c]
        have hmore := trailing_append hsolid (isBlank_of_mem_trailing (t := r))
        rw [List.append_assoc, trimEnd_append_trailing] at hmore
        exact congrArg some hmore.symm

end Ends

section Surround

variable {outer inner other : Text}

/-- A blank text is put in front of what it surrounds. -/
theorem surroundLike_of_blank (h : Blank outer) : surroundLike outer inner = outer ++ trim inner := by
  rw [surroundLike, if_pos (allBlank_iff.2 h)]

/-- A text with visible characters gives its white space to what it
surrounds. -/
theorem surroundLike_of_not_blank (h : ¬ Blank outer) :
    surroundLike outer inner = leading outer ++ (trim inner ++ trailing outer) := by
  rw [surroundLike, if_neg (fun hb => h (allBlank_iff.1 hb)), List.append_assoc]

/-- A trimmed text is trimmed already. -/
theorem trim_trim (t : Text) : trim (trim t) = trim t := by
  obtain ⟨before, behind, ht, hbefore, hbehind⟩ := exists_trim t
  have htrim := trim_append_blank hbefore hbehind (trim t)
  rw [← ht] at htrim
  exact htrim.symm

/-- Only the trimmed text is put between the blanks. -/
theorem surroundLike_congr (h : trim inner = trim other) :
    surroundLike outer inner = surroundLike outer other := by
  rw [surroundLike, surroundLike, h]

/-- The trimmed text is that of what is surrounded. -/
theorem trim_surroundLike (outer inner : Text) : trim (surroundLike outer inner) = trim inner := by
  by_cases h : Blank outer
  · have htrim := trim_append_blank h blank_nil (trim inner)
    rw [List.append_nil] at htrim
    rw [surroundLike_of_blank h, htrim, trim_trim]
  · rw [surroundLike_of_not_blank h,
      trim_append_blank isBlank_of_mem_leading isBlank_of_mem_trailing, trim_trim]

/-- Trimming the start leaves the visible characters. -/
theorem not_blank_trimStart {t : Text} (h : ¬ Blank t) : ¬ Blank (trimStart t) := by
  obtain ⟨c, r, hs, hc⟩ := exists_trimStart_cons h
  intro hb
  have := (blank_cons.1 (hs ▸ hb)).1
  rw [hc] at this
  cases this

/-- A trimmed text with visible characters ends with one. -/
theorem endsSolid_trim {t : Text} (h : ¬ Blank t) : EndsSolid (trim t) :=
  endsSolid_trimEnd (not_blank_trimStart h)

/-- A text that is not blank is its trimmed middle between its own blanks. -/
theorem leading_trim_trailing {t : Text} (h : ¬ Blank t) :
    leading t ++ (trim t ++ trailing t) = t := by
  have hsolid := (endsSolid_trim h).append (leading t)
  have htail := trailing_append hsolid (isBlank_of_mem_trailing (t := trimStart t))
  rw [List.append_assoc, ← leading_append_trim] at htail
  rw [htail]
  exact (leading_append_trim t).symm

/-- A text that surrounds itself is as it was. -/
theorem surroundLike_self (t : Text) : surroundLike t t = t := by
  by_cases h : Blank t
  · rw [surroundLike_of_blank h, trim_blank h, List.append_nil]
  · rw [surroundLike_of_not_blank h, leading_trim_trailing h]

/-- Around a visible body stand the blanks of the old one, no more and no fewer. -/
theorem leading_surroundLike (ho : ¬ Blank outer) (hi : ¬ Blank inner) :
    leading (surroundLike outer inner) = leading outer := by
  obtain ⟨c, r, hs, hc⟩ := exists_trimStart_cons hi
  have htrim : trim inner = c :: trimEnd r := by
    rw [trim, hs]
    exact trimEnd_append (endsSolid_singleton hc) r
  rw [surroundLike_of_not_blank ho, htrim, List.cons_append]
  exact leading_blank_append isBlank_of_mem_leading hc _

/-- The white space at the end is that of the surrounding text. -/
theorem trailing_surroundLike (ho : ¬ Blank outer) (hi : ¬ Blank inner) :
    trailing (surroundLike outer inner) = trailing outer := by
  rw [surroundLike_of_not_blank ho, ← List.append_assoc]
  exact trailing_append ((endsSolid_trim hi).append _) isBlank_of_mem_trailing

end Surround

end Text

namespace Page

/-- Filling scripts with their own bodies sets the texts they have. -/
theorem editsOf_fillEdit_self (given : List Text) (scripts : List Located) :
    (editsOf (fillEdit fun _ body => body) given scripts).1 =
      scripts.map fun l => ⟨l.address, Node.fill l.node.textContent⟩ := by
  induction scripts generalizing given with
  | nil => rfl
  | cons script scripts ih =>
    rw [editsOf, ih, List.map_cons, fillEdit, Text.surroundLike_self]

/-- Bodies that are passed through are filled in as they were written. -/
theorem transformInline_passthrough (options : ModuleOptions) (page : Page) :
    (transformInline Strategy.passthrough options page).result = .ok () ∧
      (transformInline Strategy.passthrough options page).page.root =
        page.root.applyEach ((page.root.findAll Node.isInlineModule).map fun l =>
          ⟨l.address, Node.fill l.node.textContent⟩) := by
  rw [← editsOf_fillEdit_self []]
  exact fillEach_of_ok (fun _ _ _ _ => rfl) page

end Page

/-- The laws of the blanks around a body: a body in its own place is itself, only
the outermost place shows, the visible part is kept, the blanks at the end are
those that a search finds, and around a visible body they are those of the old
one at both ends. -/
theorem Text.surroundLike_laws (o o₂ t : Text) :
    surroundLike o o = o ∧
      (∀ (options : ModuleOptions) (page : Page),
        (Page.transformInline Strategy.passthrough options page).result = .ok () ∧
          (Page.transformInline Strategy.passthrough options page).page.root =
            page.root.applyEach ((page.root.findAll Node.isInlineModule).map fun l =>
              ⟨l.address, Node.fill l.node.textContent⟩)) ∧
      surroundLike o (surroundLike o₂ t) = surroundLike o t ∧
      trim (surroundLike o t) = trim t ∧
      searchBlanks? o = some (trailing o) ∧
      (¬ Blank o → ¬ Blank t → leading (surroundLike o t) = leading o ∧
        trailing (surroundLike o t) = trailing o) :=
  ⟨surroundLike_self o, Page.transformInline_passthrough,
    surroundLike_congr (trim_surroundLike o₂ t), trim_surroundLike o t, searchBlanks?_eq o,
    fun ho ht => ⟨leading_surroundLike ho ht, trailing_surroundLike ho ht⟩⟩

/-- A body that starts with a no-break space and ends in two line feeds. -/
theorem Text.surroundLike_laws_lineFeeds :
    ¬ Blank "\u00a0\n a;\n\n".toList ∧ ¬ Blank "\tb \n".toList ∧
      surroundLike "\u00a0\n a;\n\n".toList "\tb \n".toList = "\u00a0\n b\n\n".toList ∧
      leading (surroundLike "\u00a0\n a;\n\n".toList "\tb \n".toList) = "\u00a0\n ".toList ∧
      trailing (surroundLike "\u00a0\n a;\n\n".toList "\tb \n".toList) = "\n\n".toList := by
  have ho : ¬ Blank "\u00a0\n a;\n\n".toList := by decide
  have ht : ¬ Blank "\tb \n".toList := by decide
  obtain ⟨_, _, _, _, _, hruns⟩ :=
    surroundLike_laws "\u00a0\n a;\n\n".toList [] "\tb \n".toList
  obtain ⟨hleading, htrailing⟩ := hruns ho ht
  exact ⟨ho, ht, by decide, hleading.trans (by decide), htrailing.trans (by decide)⟩

end ModuleScripts
