-- The rendering of a query template. A template is found without case, and the name it was found
-- by is split with case.
import OpenGyoza.QueryResolution

namespace OpenGyoza

open List

/-! ## Rendering -/

/-- Regular expressions, and the language of the strings in a query. -/
class Hil where
  /-- The groups of the first match of an expression in a text, none if there is no match. -/
  findStringSubmatch : String → String → List String
  /-- The service part of a query, all of its strings evaluated with these variables. -/
  eval : String → List (String × String) → List String → Except String String
  removeEmptyTags : String → String

def trimPrefix (s pfx : String) : String :=
  if pfx.toList <+: s.toList then String.ofList (s.toList.drop pfx.toList.length) else s

/-- What the strings of a template can refer to. -/
def templateVariables (query : PreparedQuery) (name : String) (source : QuerySource) :
    List (String × String) := [
  ("name.full", name),
  ("name.prefix", query.name),
  ("name.suffix", trimPrefix name query.name),
  ("agent.segment", source.segment)]

section Render

variable [External] [Hil]

omit [External] in
def render (query : PreparedQuery) (name : String) (source : QuerySource) :
    Except String PreparedQuery := do
  let groups :=
    if query.templateRegexp ≠ "" then Hil.findStringSubmatch query.templateRegexp name else []
  let definition ← Hil.eval query.definition (templateVariables query name source) groups
  return { query with
    definition := if query.removeEmptyTags then Hil.removeEmptyTags definition else definition }

@[reducible] def hilTemplates : Templates := ⟨render⟩

attribute [local instance] hilTemplates

/-! ## The split of a name -/

def SplitsName (query : PreparedQuery) (name : String) (source : QuerySource) : Prop :=
  ∃ start rest, (templateVariables query name source).lookup "name.prefix" = some start ∧
    (templateVariables query name source).lookup "name.suffix" = some rest ∧
    bytesOf rest = (bytesOf name).drop (bytesOf query.name).length ∧
    toLower (start ++ rest) = toLower name

omit [Hil] in
theorem splitsName_iff {query : PreparedQuery} {name : String} (hname : name ≠ "")
    (source : QuerySource) : SplitsName query name source ↔ ∃ rest, name = query.name ++ rest := by
  constructor
  · rintro ⟨start, rest, -, hrest, hbytes, -⟩
    cases hrest
    by_cases h : query.name.toList <+: name.toList
    · obtain ⟨rest, hrest⟩ := h
      exact ⟨String.ofList rest, String.toList_inj.mp (by simp [hrest])⟩
    · -- nothing was cut off, so the name of the template is empty
      have hsame : bytesOf name = (bytesOf name).drop (bytesOf query.name).length := by
        simpa [trimPrefix, h] using hbytes
      have hlen := congrArg List.length hsame
      have hpos : 0 < (bytesOf name).length :=
        length_pos_iff.mpr fun hnil => hname (bytesOf_injective (by rw [hnil]; rfl))
      rw [length_drop] at hlen
      have hzero : (bytesOf query.name).length = 0 := by omega
      have hempty : query.name = "" :=
        bytesOf_injective ((length_eq_zero_iff.mp hzero).trans rfl)
      exact ⟨name, by rw [hempty, String.empty_append]⟩
  · rintro ⟨rest, rfl⟩
    have hrest : trimPrefix (query.name ++ rest) query.name = rest := by
      simp [trimPrefix]
    exact ⟨_, _, rfl, rfl, by rw [hrest, bytesOf_append, drop_left], by rw [hrest]⟩

/-- A template that a name selects is rendered with the name split as it should be exactly when the
name starts with that of the template letter for letter. -/
theorem template_splits_name_iff {w : Indexed}
    (hrun : Relation.ReflTransGen QueryStep .empty w) {name : String} (hname : name ≠ "")
    (hid : ∀ q ∈ w.state.preparedQueries.values, isUUID name = true → uuidKey q.id ≠ uuidKey name)
    {query : PreparedQuery} (hquery : Selected w.state.preparedQueries.values name query)
    (htemplate : query.isTemplate = true) (source : QuerySource) :
    (w.preparedQueryResolve name source = (render query name source).map fun result =>
      (maxIndexTxn ["prepared-queries"] w.state, some result)) ∧
    (SplitsName query name source ↔ ∃ rest, name = query.name ++ rest) := by
  refine ⟨?_, splitsName_iff hname source⟩
  rw [(Consistent.of_run hrun).resolve hname hid hquery source, preparedForm, if_pos htemplate]
  rfl

end Render

section Example

attribute [local instance] ascii

/-- The strings of a template are its suffix. -/
@[reducible] def suffixOnly : Hil where
  findStringSubmatch _ _ := []
  eval _ vars _ := .ok ((vars.lookup "name.suffix").getD "")
  removeEmptyTags := id

attribute [local instance] suffixOnly hilTemplates

/-- The template `Web` is rendered for `WEB-1` with the whole name as its suffix. -/
theorem the_suffix_has_the_prefix :
    twoQueries.preparedQueryResolve "WEB-1" {} =
      .ok (2, some { webTemplate with
        definition := "WEB-1", createIndex := 1, modifyIndex := 1 }) ∧
      ¬ SplitsName { webTemplate with createIndex := 1, modifyIndex := 1 } "WEB-1" {} := by
  refine ⟨by decide +kernel, fun hsplits => ?_⟩
  obtain ⟨rest, hrest⟩ := (splitsName_iff (by decide) {}).mp hsplits
  simpa [webTemplate] using congrArg String.toList hrest

theorem a_name_in_the_same_case_is_split :
    SplitsName { webTemplate with createIndex := 1, modifyIndex := 1 } "Web-1" {} := by
  have hrun : Relation.ReflTransGen QueryStep .empty twoQueries :=
    .tail (.single (.set 1 webTemplate)) (.set 2 websocketQuery)
  refine ((template_splits_name_iff hrun (by decide) (by decide +kernel) ?_ (by decide) {}).2.mpr
    ⟨"-1", by decide⟩)
  unfold Selected NamePrefix
  decide +kernel

end Example

end OpenGyoza
