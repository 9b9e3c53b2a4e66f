import ModuleScripts.Proofs.PageMap

/-!
# What becomes of one script

Versioning and filling keep a script a script of texts. A filled script is no
module script any more, and neither is an external one that was made a stub.
-/

namespace ModuleScripts

section Tags

/-- A module script is external or inline. -/
theorem Tag.isModule_eq (tag : Tag) : tag.isModule = (tag.isExternalModule || tag.isInlineModule) := by
  rw [isExternalModule, isInlineModule]
  cases tag.isModule <;> cases tag.has sourceName <;> rfl

namespace Page

/-- Other attributes than the one that marks a fallback do not matter to it. -/
theorem tag_isFallback_put {name : Text} (h : fallbackName ≠ name) (value : Option Text)
    (tag : Tag) : (tag.put name value).isFallback = tag.isFallback := by
  have hhas : (tag.put name value).has fallbackName = tag.has fallbackName := by
    rw [Tag.has, Tag.put, Tag.has]
    cases tag.attributes with
    | none => exact congrArg Option.isSome (Attributes.get?_put_of_ne h value [])
    | some attributes => exact congrArg Option.isSome (Attributes.get?_put_of_ne h value attributes)
  rw [Tag.isFallback, Tag.isFallback, hhas]
  rfl

/-- Erasing another attribute leaves whether a tag is a fallback. -/
theorem tag_isFallback_erase {name : Text} (h : fallbackName ≠ name) (tag : Tag) :
    (tag.erase name).isFallback = tag.isFallback := by
  have hhas : (tag.erase name).has fallbackName = tag.has fallbackName := by
    rw [Tag.has, Tag.erase, Tag.has]
    cases tag.attributes with
    | none => rfl
    | some attributes => exact congrArg Option.isSome (Attributes.get?_erase_of_ne h attributes)
  rw [Tag.isFallback, Tag.isFallback, hhas]
  rfl

end Page

end Tags

namespace Node

/-- A module script is an external or an inline one. -/
theorem isModuleScript_eq (node : Node) :
    node.isModuleScript = (node.isExternalModule || node.isInlineModule) := by
  cases node with
  | element tag children content => exact tag.isModule_eq
  | _ => rfl

/-- What is no module script is neither an external nor an inline one. -/
theorem not_external_of_not_module {node : Node} (h : node.isModuleScript = false) :
    node.isExternalModule = false := by
  rw [isModuleScript_eq, Bool.or_eq_false_iff] at h
  exact h.1

/-- What is no module script is no inline one. -/
theorem not_inline_of_not_module {node : Node} (h : node.isModuleScript = false) :
    node.isInlineModule = false := by
  rw [isModuleScript_eq, Bool.or_eq_false_iff] at h
  exact h.2

/-- What has a source is not inline. -/
theorem not_inline_of_external {node : Node} (h : node.isExternalModule = true) :
    node.isInlineModule = false := by
  cases node with
  | element tag children content =>
    have htag : tag.isExternalModule = true := h
    rw [Tag.isExternalModule, Bool.and_eq_true] at htag
    change tag.isInlineModule = false
    rw [Tag.isInlineModule, htag.2, Bool.not_true, Bool.and_false]
  | _ => rfl

/-- A node whose text is set holds texts only. -/
theorem setText_holds_texts (data : Text) (node : Node) :
    (node.setText data).children.all isText = true := by
  have htext : (if data.isEmpty then [] else [text (some data)]).all isText = true := by
    split
    · rfl
    · rfl
  cases node with
  | document | fragment | element => exact htext
  | _ => rfl

section Polyfills

/-- A script element has a plain script tag. -/
theorem tag?_scriptElement (source : Text) :
    (scriptElement source).tag? = some (Tag.plain scriptName) := by
  cases source <;> rfl

/-- A polyfill is a script that is neither a module nor a fallback. -/
theorem scriptElement_isScript (source : Text) : (scriptElement source).isScript = true := by
  rw [isScript, hasName, tag?_scriptElement]
  decide

/-- A script element is no module script. -/
theorem scriptElement_not_module (source : Text) : (scriptElement source).isModuleScript = false := by
  rw [isModuleScript, tagFits, tag?_scriptElement]
  decide

/-- A script element is no fallback. -/
theorem scriptElement_not_fallback (source : Text) : (scriptElement source).isFallback = false := by
  rw [isFallback, tagFits, tag?_scriptElement]
  decide

/-- The text of a script element is the text it was made of. -/
theorem textContent_scriptElement (text : Text) : (scriptElement text).textContent = text := by
  cases text with
  | nil => simp [scriptElement, setText, mapChildren, Node.textContent, located, Located.walk_cons,
      Located.walk_nil, Located.children, Located.siblings, children, ownText]
  | cons c r => exact textContent_of_text _ _ _

end Polyfills

section Fill

variable (body : Text) (node : Node)

/-- A filled node holds texts only. -/
theorem fill_holds_texts : (node.fill body).children.all isText = true := by
  have hset := setText_holds_texts body node
  rw [fill]
  cases node with
  | element tag children content => exact hset
  | _ => exact hset

/-- Filling a node leaves whether it is a script. -/
theorem fill_isScript : (node.fill body).isScript = node.isScript := by
  cases node <;> rfl

/-- Filling a node leaves whether it is a fallback. -/
theorem fill_isFallback : (node.fill body).isFallback = node.isFallback := by
  cases node with
  | element tag children content => exact Page.tag_isFallback_erase (by decide) tag
  | _ => rfl

/-- A filled script has no type. -/
theorem fill_not_module : (node.fill body).isModuleScript = false := by
  cases node with
  | element tag children content => exact Page.tag_isModule_erase tag
  | _ => rfl

end Fill

section Version

variable (param : Text) (node : Node)

/-- A node that becomes a stub holds texts only. -/
theorem versionScript_holds_texts : (node.versionScript true param).children.all isText = true := by
  have hset := setText_holds_texts (defineStub (node.mapTag (Tag.versioned param)).source)
    (node.mapTag (Tag.versioned param))
  rw [versionScript]
  cases node with
  | element tag children content => exact hset
  | _ => exact hset

/-- Texts are not versioned. -/
@[simp] theorem versionScript_text (amd : Bool) (data : Option Text) :
    (text data).versionScript amd param = text data := by
  cases amd <;> rfl

/-- Becoming a stub leaves whether a node is a fallback. -/
theorem versionScript_isFallback : (node.versionScript true param).isFallback = node.isFallback := by
  cases node with
  | element tag children content =>
    change (((tag.versioned param).erase sourceName).erase typeName).isFallback = tag.isFallback
    rw [Page.tag_isFallback_erase (by decide), Page.tag_isFallback_erase (by decide)]
    exact Page.tag_isFallback_put (by decide) _ tag
  | _ => rfl

/-- A stub has neither source nor type. -/
theorem versionScript_not_module : (node.versionScript true param).isModuleScript = false := by
  cases node with
  | element tag children content => exact Page.tag_isModule_erase _
  | _ => rfl

end Version

section Converted

variable {amd : Bool} {param : Text} {new : List Text → Text → Text} {given : List Text}
  {script : Node}

/-- A converted script is a script. -/
theorem converted_isScript (h : script.isScript = true) :
    (script.converted amd param new given).1.isScript = true := by
  rw [converted]
  split
  · exact Page.versionScript_isScript amd param h
  · split
    · exact (fill_isScript _ script).trans h
    · exact h

/-- A converted script holds texts only. -/
theorem converted_scriptsHoldTexts (hscript : script.isScript = true)
    (h : script.scriptsHoldTexts = true) :
    (script.converted amd param new given).1.scriptsHoldTexts = true := by
  rw [converted]
  split
  · exact Page.versionScript_scriptsHoldTexts amd param hscript h
  · split
    · rw [scriptsHoldTexts_eq, fill_isScript, if_pos hscript]
      exact fill_holds_texts _ script
    · exact h

/-- No script is an inline module script any more. -/
theorem converted_not_inline : (script.converted amd param new given).1.isInlineModule = false := by
  rw [converted]
  split
  · next hexternal => exact Page.versionScript_not_inline amd param hexternal
  · split
    · exact not_inline_of_not_module (fill_not_module _ script)
    · next hinline => exact Bool.eq_false_iff.2 hinline

/-- An inline script is given to the strategy, no other one is. -/
theorem converted_given :
    (script.converted amd param new given).2 =
      if script.isInlineModule then given ++ [script.textContent] else given := by
  rw [converted]
  cases hexternal : script.isExternalModule with
  | true =>
    rw [not_inline_of_external hexternal]
    rfl
  | false =>
    cases script.isInlineModule with
    | true => rfl
    | false => rfl

end Converted

end Node

namespace MarkupParser

variable {parser : MarkupParser} {source text : Text}

/-- The text of the first script is the text of the script that is made of a source. -/
theorem scriptText_eq
    (h : (parser.read (Polyfill.markup source)).firstScript? = some (scriptElement text)) :
    parser.scriptText source = text := by
  rw [scriptText, h, Option.map_some, Option.getD_some, Node.textContent_scriptElement]

/-- The parser for a script alone cuts a source, unless a blank behind the name of an end
tag makes the text part of what follows. -/
theorem alone_scriptText (source : Text) : alone.scriptText source =
    match Polyfill.splitEndTag ('\n' :: (source ++ "\n</script>".toList)) with
    | (text, none) => text
    | (text, some mark) => if Polyfill.isMarkupBlank mark then [] else text :=
  scriptText_eq (firstScript?_scriptElement _)

end MarkupParser

end ModuleScripts
