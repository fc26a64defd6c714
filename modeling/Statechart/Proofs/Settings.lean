import Statechart.Proofs.Json.Written
import Statechart.Settings

/-!
# Settings as texts

Settings are read from the text of a JSON object. Main statement: what is written for some settings
is read to these settings again, and so is every text with the same members, whatever their order,
the layout and the other members beside them; a member that is left out gets its default.
-/

namespace Statechart

/-! ## 1. Texts as JSON -/

namespace Json

theorem properCodes_ofText (s : String) : ProperCodes (JsonString.ofText s) := by
  have hchars : ∀ cs : List Char, ProperCodes (cs.map Char.toNat) := by
    intro cs
    induction cs with
    | nil => trivial
    | cons c cs ih =>
      have hc := c.valid
      have hval : c.toNat = c.val.toNat := rfl
      refine ⟨?_, fun hhigh => ?_, ih⟩
      · simp only [UInt32.isValidChar, Nat.isValidChar] at hc
        omega
      · -- a character is no half of a pair
        simp only [UInt32.isValidChar, Nat.isValidChar] at hc
        unfold IsHigh at hhigh
        omega
  exact hchars s.toList

theorem proper_ofText (s : String) : (ofText s).Proper := by
  rw [ofText, Proper]
  exact properCodes_ofText s

theorem proper_ofTexts (ss : List String) : (ofTexts ss).Proper := by
  have hitems : ProperItems (ss.map ofText) := by
    induction ss with
    | nil => trivial
    | cons s ss ih => exact ⟨proper_ofText s, ih⟩
  rw [ofTexts, Proper]
  exact hitems

/-- The names of an object are the texts that it was made with. -/
theorem mapM_ofMembers (members : List (String × Json)) :
    (members.map fun (k, v) => (JsonString.ofText k, v)).mapM
        (fun (k, v) => do return (← JsonString.text? k, v)) = some members := by
  induction members with
  | nil => rfl
  | cons m members ih =>
    simp only [List.map_cons, List.mapM_cons, JsonString.text?_ofText, ih]
    rfl

end Json

namespace Settings

/-! ## 2. Members -/

/-- The members that are written for some settings. -/
def members (s : Settings) : List (String × Json) :=
  memberNames.zip [.ofText s.mode.word, .ofText s.importSource, .ofTexts s.factoryNames,
    .ofTexts s.actionModules]

theorem toJson_eq (s : Settings) : s.toJson = .ofMembers s.members := rfl

theorem proper_toJson (s : Settings) : s.toJson.Proper := by
  have hname := Json.properCodes_ofText
  simp only [toJson, Json.ofMembers, Json.Proper, List.map_cons, List.map_nil, Json.ProperMembers]
  exact ⟨hname _, Json.proper_ofText _, hname _, Json.proper_ofText _, hname _,
    Json.proper_ofTexts _, hname _, Json.proper_ofTexts _, trivial⟩

/-- The settings with their defaults in place of what is left out. -/
def keeping (s : Settings) (kept : String → Bool) : Settings :=
  let d : Settings := {}
  { mode := if kept "mode" then s.mode else d.mode
    importSource := if kept "importSource" then s.importSource else d.importSource
    factoryNames := if kept "factoryNames" then s.factoryNames else d.factoryNames
    actionModules := if kept "actionModules" then s.actionModules else d.actionModules }

/-- Of the members that are kept, only one has the name; the order and other names do not matter. -/
theorem member?_of_perm {α : Type} {s : Settings} {kept : String → Bool}
    {all unknown : List (String × Json)} {name : String} {v : Json} {read : Json → Option α}
    {default : α} (hunknown : ∀ m ∈ unknown, m.1 ∉ memberNames)
    (hperm : all.Perm ((s.members.filter fun m => kept m.1) ++ unknown))
    (hname : name ∈ memberNames) (hv : (s.members.filter fun m => m.1 == name) = [(name, v)]) :
    member? all name read default = if kept name then read v else some default := by
  have hother : (unknown.filter fun m => m.1 == name) = [] := by
    rw [List.filter_eq_nil_iff]
    intro m hm hsame
    exact hunknown m hm ((beq_iff_eq.1 hsame) ▸ hname)
  have hfound := hperm.filter fun m => m.1 == name
  rw [List.filter_append, List.filter_comm, hv, hother, List.append_nil] at hfound
  unfold member?
  by_cases hkept : kept name = true
  · have hone : [(name, v)].filter (fun m => kept m.1) = [(name, v)] := by simp [hkept]
    rw [hone, List.perm_singleton] at hfound
    rw [hfound, if_pos hkept]
  · have hnone : [(name, v)].filter (fun m => kept m.1) = [] := by simp [hkept]
    rw [hnone, List.perm_nil] at hfound
    rw [hfound, if_neg hkept]

theorem readMode?_ofText (m : Mode) : readMode? (.ofText m.word) = some m := by
  rw [Json.ofText, readMode?]
  · rw [Json.text?, JsonString.text?_ofText]
    exact Mode.ofWord?_word m
  · intro name h
    cases h

theorem ofMembers?_of_perm {s : Settings} {kept : String → Bool}
    {all unknown : List (String × Json)} (hunknown : ∀ m ∈ unknown, m.1 ∉ memberNames)
    (hperm : all.Perm ((s.members.filter fun m => kept m.1) ++ unknown)) :
    ofMembers? all = some (s.keeping kept) := by
  have hmode (d : Mode) : member? all "mode" readMode? d =
      if kept "mode" then some s.mode else some d := by
    rw [member?_of_perm hunknown hperm (by decide) rfl, readMode?_ofText]
  have hsource (d : String) : member? all "importSource" Json.text? d =
      if kept "importSource" then some s.importSource else some d := by
    rw [member?_of_perm hunknown hperm (by decide) rfl, Json.text?_ofText]
  have hfactories (d : List String) : member? all "factoryNames" Json.texts? d =
      if kept "factoryNames" then some s.factoryNames else some d := by
    rw [member?_of_perm hunknown hperm (by decide) rfl, Json.texts?_ofTexts]
  have hmodules (d : List String) : member? all "actionModules" Json.texts? d =
      if kept "actionModules" then some s.actionModules else some d := by
    rw [member?_of_perm hunknown hperm (by decide) rfl, Json.texts?_ofTexts]
  simp only [ofMembers?, hmode, hsource, hfactories, hmodules, ← apply_ite]
  rfl

/-! ## 3. Texts -/

theorem ofJson?_ofMembers (members : List (String × Json)) :
    ofJson? (.ofMembers members) = ofMembers? members := by
  rw [Json.ofMembers, ofJson?, Json.mapM_ofMembers]
  rfl

/-- **Settings are read back from every text that has their members.** They are written as such a
text; the order of the members and the layout do not matter, other members are passed over, and a
member that is left out gets its default. -/
theorem ofJson?_textOf (s : Settings) :
    (Json.ofText? s.toJson.text).bind ofJson? = some s ∧
      ∀ (kept : String → Bool) (unknown all : List (String × Json)) (cs : List Char),
        (∀ m ∈ unknown, m.1 ∉ memberNames) →
        all.Perm ((s.members.filter fun m => kept m.1) ++ unknown) →
        Json.TextOf (.ofMembers all) cs →
          (Json.ofText? (String.ofList cs)).bind ofJson? = some (s.keeping kept) := by
  refine ⟨?_, fun kept unknown all cs hunknown hperm htext => ?_⟩
  · rw [Json.ofText?_text s.proper_toJson, Option.bind_some, toJson_eq, ofJson?_ofMembers]
    have hall : s.members.Perm ((s.members.filter fun _ => true) ++ []) := by
      rw [List.filter_true, List.append_nil]
    have hread : ofMembers? s.members = some (s.keeping fun _ => true) :=
      ofMembers?_of_perm (List.forall_mem_nil _) hall
    exact hread
  · rw [Json.ofText?_of_textOf htext, Option.bind_some, ofJson?_ofMembers]
    exact ofMembers?_of_perm hunknown hperm

/-- The mode and a note are written with blanks, and the rest is left out. -/
theorem ofJson?_textOf_noted :
    (Json.ofText? "\x7b\"note\": null,\"mode\": \"strict\" \x7d").bind ofJson? =
      some ({ mode := .strict } : Settings) := by
  have hblank : Json.Blanks [' '] := List.forall_mem_singleton.2 rfl
  have hname (name : String) : Json.NameText (.ofText name) (Json.writeString (.ofText name)) :=
    Json.nameText_write (Json.properCodes_ofText name)
  have hmode : Json.MembersText [(.ofText "mode", .ofText "strict")] _ :=
    .last (hname "mode") hblank (Json.valueText_write _ (Json.proper_ofText "strict")) hblank
  have hnote : Json.MembersText [(.ofText "note", .null), (.ofText "mode", .ofText "strict")] _ :=
    .more (hname "note") hblank .ofNull .nil hmode
  have htext : Json.TextOf (.ofMembers [("note", .null), ("mode", .ofText "strict")])
      "\x7b\"note\": null,\"mode\": \"strict\" \x7d".toList :=
    ⟨[], _, [], .nil, .ofObject hnote, .nil, by decide⟩
  have hkept : (members { mode := .strict }).filter (fun m => m.1 == "mode") =
      [("mode", .ofText "strict")] := rfl
  have hread := (ofJson?_textOf { mode := .strict }).2 (fun n => n == "mode") [("note", .null)]
    [("note", .null), ("mode", .ofText "strict")] _ (by decide) (hkept ▸ .swap _ _ []) htext
  rw [String.ofList_toList] at hread
  exact hread

end Settings

end Statechart
