import ModuleScripts.Proofs.ClosedCode
import ModuleScripts.Proofs.ScriptEnds

/-!
# The literal of a stub

The stub of an external module script names its source between single quotes. A
reader of strings comes out of it at its closing quote and nowhere before, and
without the backslashes of its escapes it is the versioned source. So no source
breaks out of its stub, and no two sources share one.
-/

namespace ModuleScripts

namespace Lexer

/-- Whether the next character is one of a string. -/
def Mode.inString : Mode → Bool
  | quoted _ => true
  | escaped _ => true
  | _ => false

/-- What follows the string in which the lexer stands, or nothing if it ends with
the text. -/
def behindString (s : State) : Text → Text
  | [] => []
  | c :: r => if s.mode.inString then behindString (step s c r.head?).2 r else c :: r

/-- Outside a string nothing is passed over. -/
theorem behindString_plain (context : Context) (t : Text) :
    behindString ⟨.plain, context⟩ t = t := by
  cases t <;> rfl

section Strings

variable {quote : Char} {body : Text}

/-- The closing quote is the last of the string. -/
theorem behindString_quote (quote : Char) (hquote : isQuote quote = true) (context : Context)
    (r : Text) : behindString ⟨.quoted quote, context⟩ (quote :: r) = r := by
  rw [behindString, step_closes_string hquote]
  exact behindString_plain context r

/-- The body of a string does not end it. -/
theorem QuotedBody.behindString (h : QuotedBody quote body) (context : Context) (r : Text) :
    behindString ⟨.quoted quote, context⟩ (body ++ r) =
      behindString ⟨.quoted quote, context⟩ r := by
  induction h with
  | nil => rfl
  | @char c t hquote hescape hline _ ih =>
    have hstep : (step ⟨.quoted quote, context⟩ c (t ++ r).head?).2 =
        ⟨.quoted quote, context⟩ := by
      change (quotedStep context quote c _).2 = _
      rw [quotedStep, if_neg hescape, if_neg (by simp [hquote, hline])]
    rw [List.cons_append, Lexer.behindString]
    simp only [Mode.inString, if_true, hstep, ih]
  | @escaped c t _ ih =>
    have hescape : step ⟨.quoted quote, context⟩ '\\' (c :: (t ++ r)).head? =
        (false, ⟨.escaped quote, context⟩) := step_escapes c
    have hescaped : (step ⟨.escaped quote, context⟩ c (t ++ r).head?).2 =
        ⟨.quoted quote, context⟩ := rfl
    rw [List.cons_append, List.cons_append, Lexer.behindString, Lexer.behindString]
    simp only [Mode.inString, if_true, hescape, hescaped, ih]

/-- At the top level a string counts by its closing quote only. -/
theorem QuotedBody.run_eq (h : QuotedBody quote body) (hquote : isQuote quote = true) (r : Text) :
    run ⟨.quoted quote, []⟩ (body ++ quote :: r) =
      (List.replicate body.length false ++ true :: (run ⟨.plain, []⟩ r).1,
        (run ⟨.plain, []⟩ r).2) := by
  have hahead : ∀ t : Text, (t ++ quote :: r).head?.isNone = false := fun t => by cases t <;> rfl
  induction h with
  | nil =>
    rw [List.nil_append, run, step_closes_string hquote]
    rfl
  | @char c t hquote hback hline _ ih =>
    rw [List.cons_append, run, step_in_string hquote hback hline (hahead t), ih]
    rfl
  | @escaped c t _ ih =>
    have hback : step ⟨.quoted quote, []⟩ '\\' (c :: (t ++ quote :: r)).head? =
        (false, ⟨.escaped quote, []⟩) := step_escapes c
    rw [List.cons_append, List.cons_append, run, hback, run, step_escaped (hahead t), ih]
    rfl

end Strings

end Lexer

namespace Text

/-- The text without the backslash of each escape, read from the left. -/
def dropEscapes : Text → Text
  | [] => []
  | [c] => [c]
  | c :: d :: r => if c = '\\' then d :: dropEscapes r else c :: dropEscapes (d :: r)

/-- A character other than a backslash is kept. -/
theorem dropEscapes_cons {c : Char} (hc : c ≠ '\\') (r : Text) :
    dropEscapes (c :: r) = c :: dropEscapes r := by
  cases r with
  | nil => rfl
  | cons d r => rw [dropEscapes, if_neg hc]

/-- A text is escaped character by character. -/
theorem escapeSingle_cons (c : Char) (r : Text) :
    escapeSingle (c :: r) = stubChar c ++ escapeSingle r := List.flatMap_cons

/-- A backslash and a single quote are escaped, and nothing else is. -/
theorem stubChar_cases (c : Char) :
    (c = '\\' ∨ c = '\'') ∧ stubChar c = ['\\', c] ∨
      (c ≠ '\\' ∧ c ≠ '\'') ∧ stubChar c = [c] := by
  by_cases h : c = '\\' ∨ c = '\''
  · exact .inl ⟨h, if_pos (by simpa using h)⟩
  · exact .inr ⟨not_or.1 h, if_neg (by simpa using h)⟩

/-- Dropping the escapes undoes the quoting. -/
theorem dropEscapes_escapeSingle (t : Text) : dropEscapes (escapeSingle t) = t := by
  induction t with
  | nil => rfl
  | cons c r ih =>
    rw [escapeSingle_cons]
    rcases stubChar_cases c with ⟨-, hs⟩ | ⟨⟨hescape, -⟩, hs⟩
    · rw [hs, List.cons_append, List.singleton_append, dropEscapes, if_pos rfl, ih]
    · rw [hs, List.singleton_append, dropEscapes_cons hescape, ih]

/-- A text of one line is quoted to the body of a string. -/
theorem quotedBody_escapeSingle {t : Text} (h : '\n' ∉ t) :
    Lexer.QuotedBody '\'' (escapeSingle t) := by
  induction t with
  | nil => exact .nil
  | cons c r ih =>
    rw [List.mem_cons, not_or] at h
    rw [escapeSingle_cons]
    rcases stubChar_cases c with ⟨-, hs⟩ | ⟨⟨hescape, hquote⟩, hs⟩
    · rw [hs]
      exact .escaped (ih h.2)
    · rw [hs]
      exact .char hquote hescape (fun he => h.1 he.symm) (ih h.2)

end Text

section Stubs

/-- The stub with its literal between the quotes. -/
def stubAround (literal : Text) : Text := "define(['".toList ++ literal ++ "']);".toList

/-- A stub tells what stands in it. -/
theorem stubAround_injective : Function.Injective stubAround := by
  intro a b h
  exact List.append_cancel_left (List.append_cancel_right h)

/-- Two sources never share a stub. -/
theorem defineStub_injective : Function.Injective defineStub := by
  intro a b h
  have hliteral := congrArg Text.dropEscapes (stubAround_injective h)
  rwa [Text.dropEscapes_escapeSingle, Text.dropEscapes_escapeSingle] at hliteral

/-- Of the literal of a stub only the closing quote is code. -/
theorem marks_stubAround {literal : Text} (h : Lexer.QuotedBody '\'' literal) :
    Lexer.marks [] (stubAround literal) =
      List.replicate 8 true ++ List.replicate (literal.length + 1) false ++
        List.replicate 4 true := by
  have hbody := h.run_eq (by decide) "]);".toList
  obtain ⟨c, r, hc⟩ : ∃ c r, literal ++ '\'' :: "]);".toList = c :: r :=
    List.exists_cons_of_ne_nil (by simp)
  have hcall : Lexer.walk (some '\'') ⟨.plain, []⟩ "define([".toList =
      (List.replicate 8 true, ⟨.plain, []⟩) := by decide
  have hopen : Lexer.step ⟨.plain, []⟩ '\'' (some c) = (false, ⟨.quoted '\'', []⟩) := by
    change Lexer.codeStep [] '\'' (some c) = _
    simp [Lexer.codeStep]
  have hclose : Lexer.run ⟨.plain, []⟩ "]);".toList = (List.replicate 3 true, ⟨.plain, []⟩) := by
    decide
  have hstub : stubAround literal = "define([".toList ++ '\'' :: c :: r := by
    rw [← hc]
    unfold stubAround
    simp
  rw [hstub, Lexer.marks, Lexer.run_append, List.head?_cons, hcall, Lexer.run, List.head?_cons,
    hopen, ← hc, hbody, hclose]
  simp [List.replicate_succ]

end Stubs

namespace Node

section Addresses

variable {fits : Node → Bool} {l : Located}

/-- What is found below the nodes of a list is found below one of them. -/
theorem exists_of_mem_findFrom {index : Nat} {nodes : List Node}
    (h : l ∈ findFrom fits index nodes) :
    ∃ before node after, nodes = before ++ node :: after ∧
      ∃ below ∈ node.findAll fits, l = below.under [index + before.length] := by
  induction nodes generalizing index with
  | nil =>
    rw [findFrom_nil] at h
    cases h
  | cons node nodes ih =>
    rw [findFrom_cons, List.mem_append] at h
    rcases h with h | h
    · obtain ⟨below, hbelow, rfl⟩ := List.mem_map.1 h
      exact ⟨[], node, nodes, rfl, below, hbelow, rfl⟩
    · obtain ⟨before, found, after, rfl, below, hbelow, rfl⟩ := ih h
      refine ⟨node :: before, found, after, rfl, below, hbelow, ?_⟩
      rw [List.length_cons, Nat.add_comm before.length, Nat.add_assoc]

/-- Each of the trees of a list is changed on its own. -/
theorem getElem?_mapAllScripts {σ : Type} (change : σ → Node → Node × σ) (before : List Node)
    (node : Node) (after : List Node) (s : σ) :
    ∃ s', (mapAllScripts change (before ++ node :: after) s).1[before.length]? =
      some (node.mapScripts change s').1 := by
  induction before generalizing s with
  | nil => exact ⟨s, rfl⟩
  | cons first before ih => exact ih (first.mapScripts change s).2

/-- Where a script was found stands what the change makes of it. -/
theorem get?_mapScripts {σ : Type} (change : σ → Node → Node × σ) {root : Node}
    (htexts : root.scriptsHoldTexts = true) (hl : l ∈ root.findAll fits)
    (hscript : l.node.isScript = true) (s : σ) :
    ∃ s', (root.mapScripts change s).1.get? l.address = some (change s' l.node).1 := by
  induction root using children_induction generalizing l s with
  | step root ih =>
    rw [findAll_eq, List.mem_append] at hl
    rw [scriptsHoldTexts_eq] at htexts
    rw [mapScripts_eq]
    rcases hl with hl | hl
    · have hroot : l = ⟨[], root⟩ := by
        split at hl
        · exact List.mem_singleton.1 hl
        · cases hl
      subst hroot
      rw [if_pos hscript]
      exact ⟨s, rfl⟩
    · by_cases hroot : root.isScript = true
      · rw [if_pos hroot] at htexts
        rw [findFrom_of_all_isText fits htexts] at hl
        cases hl
      · rw [if_neg hroot] at htexts
        obtain ⟨before, node, after, hchildren, below, hbelow, rfl⟩ := exists_of_mem_findFrom hl
        have hnode : node ∈ root.children := by
          rw [hchildren]
          exact List.mem_append_cons_self
        obtain ⟨s', hs'⟩ := getElem?_mapAllScripts change before node after s
        obtain ⟨s'', hs''⟩ := ih node hnode (allScriptsHoldTexts_iff.1 htexts node hnode) hbelow
          hscript s'
        refine ⟨s'', ?_⟩
        rw [if_neg hroot, Nat.zero_add]
        change get? (before.length :: below.address) _ = _
        rw [get?, children_mapChildren rfl, hchildren, hs']
        exact hs''

end Addresses

section Attributes

/-- An attribute that goes is gone whatever value it was given. -/
theorem erase_put (name : Text) (value : Option Text) (attributes : Attributes) :
    (attributes.put name value).erase name = attributes.erase name := by
  induction attributes with
  | nil => simp [Attributes.put, Attributes.erase]
  | cons first rest ih =>
    obtain ⟨key, old⟩ := first
    simp only [Attributes.erase] at ih ⊢
    rw [Attributes.put]
    split
    · next hkey => simp [hkey]
    · next hkey => rw [List.filter_cons, List.filter_cons, ih]

/-- The attributes that are neither the source nor the type. -/
def otherAttributes (attributes : Attributes) : Attributes :=
  attributes.filter fun a => a.1 ≠ sourceName ∧ a.1 ≠ typeName

/-- Behind the new source stand the other attributes in order. -/
theorem erase_erase_put (value : Option Text) (attributes : Attributes) :
    ((attributes.put sourceName value).erase sourceName).erase typeName =
      otherAttributes attributes := by
  rw [erase_put, Attributes.erase, Attributes.erase, List.filter_filter, otherAttributes]
  refine List.filter_congr fun a _ => ?_
  simp [Bool.and_comm]

end Attributes

/-- What an external module script becomes: a script with its other attributes
around the stub for its versioned source. -/
theorem versionScript_element (param : Text) (tag : Tag) (attributes : Attributes)
    (htag : tag.attributes = some attributes) (children : List Node)
    (content : Option (List Node)) :
    (element tag children content).versionScript true param =
      element { tag with attributes := some (otherAttributes attributes) }
        [text (some (defineStub (Url.appendQuery tag.source param)))] content := by
  have htags : ((tag.versioned param).erase sourceName).erase typeName =
      { tag with attributes := some (otherAttributes attributes) } := by
    rw [← erase_erase_put (some (Url.appendQuery tag.source param)), Tag.versioned, Tag.put, htag]
    rfl
  have hsource : (element (tag.versioned param) children content).source =
      Url.appendQuery tag.source param := by
    rw [source_element, Tag.versioned, source_put]
  change element (((tag.versioned param).erase sourceName).erase typeName)
    [text (some (defineStub (element (tag.versioned param) children content).source))] content = _
  rw [htags, hsource]

/-- An external module script is an element with attributes. -/
theorem exists_of_isExternalModule {node : Node} (h : node.isExternalModule = true) :
    ∃ tag attributes children content,
      node = element tag children content ∧ tag.attributes = some attributes := by
  cases node with
  | element tag children content =>
    have htag : tag.isExternalModule = true := h
    rw [Tag.isExternalModule, Bool.and_eq_true, Tag.has] at htag
    cases hattributes : tag.attributes with
    | none =>
      rw [hattributes] at htag
      cases htag.2
    | some attributes => exact ⟨tag, attributes, children, content, rfl, hattributes⟩
  | _ => cases h

/-- Every external module script of a tree becomes, in its place, a script with its
other attributes in their order around a stub. A reader of strings that stands behind
the opening quote of the stub comes out of its literal at the closing quote, which is
all that the lexer marks of it. Without its escapes the literal is the versioned source,
and no other source has this stub. -/
theorem versionExternal_stub {root : Node} {l : Located} {param : Text}
    (htexts : root.scriptsHoldTexts = true) (hl : l ∈ root.located)
    (hexternal : l.node.isExternalModule = true) (hsource : '\n' ∉ l.node.source)
    (hparam : '\n' ∉ param) :
    ∃ tag attributes children content literal,
      l.node = element tag children content ∧ tag.attributes = some attributes ∧
        (root.versionExternal true param).get? l.address =
          some (element { tag with attributes := some (otherAttributes attributes) }
            [text (some (stubAround literal))] content) ∧
        (∀ context, Lexer.behindString ⟨.quoted '\'', context⟩ (literal ++ "']);".toList) =
          "]);".toList) ∧
        Lexer.marks [] (stubAround literal) =
          List.replicate 8 true ++ List.replicate (literal.length + 1) false ++
            List.replicate 4 true ∧
        Text.dropEscapes literal = Url.appendQuery l.node.source param ∧
        ∀ source, defineStub source = stubAround literal →
          source = Url.appendQuery l.node.source param := by
  obtain ⟨tag, attributes, children, content, hnode, htag⟩ := exists_of_isExternalModule hexternal
  have hfound : l ∈ root.findAll isExternalModule := by
    rw [findAll_eq_filter, List.mem_filter]
    exact ⟨hl, by rw [isFound, hexternal, hnode]; rfl⟩
  have hline : '\n' ∉ Url.appendQuery l.node.source param := by
    intro hm
    rcases Url.mem_appendQuery hm with h | h | h | h
    · exact hsource h
    · exact hparam h
    · cases h
    · cases h
  have hbody := Text.quotedBody_escapeSingle hline
  obtain ⟨⟨⟩, hplace⟩ := get?_mapScripts
    (changeIf (Page.versionEdit true param) isExternalModule) htexts hfound
    (Page.isScript_of_isExternalModule hexternal) ()
  rw [← Page.versionExternal_eq true param htexts, changeIf, if_pos hexternal] at hplace
  refine ⟨tag, attributes, children, content, _, hnode, htag, ?_, fun context => ?_,
    marks_stubAround hbody, Text.dropEscapes_escapeSingle _, fun source h => ?_⟩
  · rw [hplace, hnode, source_element]
    exact congrArg some (versionScript_element param tag attributes htag children content)
  · rw [hbody.behindString]
    exact Lexer.behindString_quote '\'' (by decide) context "]);".toList
  · exact defineStub_injective h

/-- A second script whose source has both quotes and a backslash at its end, so that
the stub has an escape right before its closing quote. -/
theorem versionExternal_stub_quotes :
    let script (source : Option Text) : Node := element ⟨scriptName, htmlSpace,
      some [("async".toList, none), (sourceName, source), (typeName, some "module".toList),
        (['i', 'd'], some ['s'])]⟩ [text (some "f()".toList)] none
    let quotes : Text := "'\"\\".toList
    let root : Node := .document [] [script none, script (some quotes)]
    root.scriptsHoldTexts = true ∧ (⟨[1], script (some quotes)⟩ : Located) ∈ root.located ∧
      (script (some quotes)).isExternalModule = true ∧
      '\n' ∉ (script (some quotes)).source ∧ '\n' ∉ ['v'] ∧
      ∃ literal, (root.versionExternal true ['v']).get? [1] =
          some (element ⟨scriptName, htmlSpace,
            some [("async".toList, none), (['i', 'd'], some ['s'])]⟩
              [text (some (stubAround literal))] none) ∧
        Text.dropEscapes literal = "'\"\\?v".toList := by
  intro script quotes root
  have htexts : root.scriptsHoldTexts = true := by decide
  have hl : (⟨[1], script (some quotes)⟩ : Located) ∈ root.located := by
    simp [root, located, Located.walk_cons, Located.walk_nil, Located.children, Located.siblings,
      Node.children, script]
  have hexternal : (script (some quotes)).isExternalModule = true := by decide
  have hsource : '\n' ∉ (script (some quotes)).source := by decide
  have hparam : '\n' ∉ ['v'] := by decide
  obtain ⟨tag, attributes, children, content, literal, hnode, htag, hplace, -, -, hdrop, -⟩ :=
    versionExternal_stub htexts hl hexternal hsource hparam
  refine ⟨htexts, hl, hexternal, hsource, hparam, literal, ?_, hdrop⟩
  obtain ⟨rfl, rfl, rfl⟩ := Node.element.inj hnode
  obtain rfl := Option.some.inj htag
  exact hplace

end Node

end ModuleScripts
