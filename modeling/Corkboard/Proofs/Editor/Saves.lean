/-
What becomes of the drafts of an editor that was opened on a block.

An editor keeps the block it was opened on for as long as it lives, so every draft that it hands over names that block:
the one that was opened, the empty one that follows a commit, and one typed anew from the root.

- `opened_saves_replace`: all drafts of such an editor carry its block, and saved in turn they leave the last one in the
  block and the earlier ones in the history only.
- `second_save_replaces_first`: three drafts of one editor, each in the place of the one before.
-/
import Corkboard.Editing
import Corkboard.Proofs.Desk.Alone

namespace Corkboard

/-! ## The block of an editor -/

namespace Editor

/-- a call leaves the block of the editor as it is, and a draft that it hands over names that block -/
structure Keeps (e : Editor) (out : Editor × EditorAction) : Prop where
  id : out.1.id = e.id
  saved : ∀ d, out.2.saved? = some d → d.id = e.id

variable (r : ContentRegistry) (e : Editor)

theorem keeps_none {e' : Editor} (h : e'.id = e.id) : e.Keeps (e', .none) := ⟨h, nofun⟩

theorem keeps_enterType (h : Handler) (seed : String) : e.Keeps (e.enterType h seed) := ⟨rfl, nofun⟩

theorem keeps_resolveRoot (text : String) : e.Keeps (e.resolveRoot r text) := by
  unfold resolveRoot
  split
  · exact e.keeps_enterType _ _
  · split
    · exact e.keeps_enterType _ _
    · exact e.keeps_none rfl

theorem keeps_input (text : String) : e.Keeps (e.input r text) := by
  unfold input
  split
  · exact e.keeps_resolveRoot r text
  · split <;> exact e.keeps_none rfl

theorem keeps_commit : e.Keeps (e.commit r) := by
  unfold commit
  split
  · exact e.keeps_none rfl
  · exact ⟨rfl, fun d hd => by cases hd; rfl⟩

theorem keeps_cancel : e.Keeps e.cancel := by
  refine ⟨rfl, fun d hd => ?_⟩
  unfold cancel at hd
  split at hd <;> cases hd

theorem keeps_runSlashCommand (line : String) : e.Keeps (e.runSlashCommand r line) := by
  simp only [runSlashCommand]
  split
  · exact e.keeps_enterType _ _
  · exact ⟨rfl, nofun⟩

theorem keeps_key (k : String) : e.Keeps (e.key r k) := by
  unfold key
  split
  · split
    · exact e.keeps_runSlashCommand r _
    · exact e.keeps_none rfl
  · split
    · exact e.keeps_none rfl
    · split
      · exact e.keeps_none rfl
      · exact e.keeps_commit r
      · exact e.keeps_cancel

theorem keeps_perform (c : EditorCall) : e.Keeps (e.perform r c) := by
  cases c with
  | input text => exact e.keeps_input r text
  | key k => exact e.keeps_key r k
  | commit => exact e.keeps_commit r
  | cancel => exact e.keeps_cancel
  | slash line => exact e.keeps_runSlashCommand r line
  | toggle =>
    refine e.keeps_none ?_
    unfold toggle
    split
    · rfl
    · split <;> rfl
  | setDraft value =>
    refine e.keeps_none ?_
    unfold setDraft
    split <;> rfl

/-- every draft names the block of the editor, however many there are -/
theorem id_of_mem_saves (cs : List EditorCall) : ∀ d ∈ e.saves r cs, d.id = e.id := by
  induction cs generalizing e with
  | nil => simp [saves, performAll]
  | cons c cs ih =>
    have hkeeps := e.keeps_perform r c
    intro d hd
    have hsplit : e.saves r (c :: cs) = (e.perform r c).2.saved?.toList ++ (e.perform r c).1.saves r cs := by
      simp only [saves, performAll, List.filterMap_cons]
      cases (e.perform r c).2.saved? <;> rfl
    rw [hsplit] at hd
    rcases List.mem_append.1 hd with hd | hd
    · exact hkeeps.saved d (Option.mem_toList.1 hd)
    · exact (ih (e.perform r c).1 d hd).trans hkeeps.id

theorem withType_id (id : Option Uuid) (tag : String) (value : Json) : (withType r id tag value).id = id := by
  unfold withType
  split <;> rfl

end Editor

/-! ## Drafts saved in turn -/

namespace Block

theorem rewrittenBy_save (b : Block) {d : Committed} {id : Uuid} (hd : d.id = some id) (index : Nat) :
    b.rewrittenBy (.save d index) = b.withDraft d := by
  obtain ⟨_, tag, value⟩ := d
  cases hd
  rfl

theorem rewrittenByAll_saves (b : Block) {ds : List Committed} {id : Uuid} (hds : ∀ d ∈ ds, d.id = some id)
    (index : Nat) :
    b.rewrittenByAll (ds.map fun d => .save d index) = ds.getLast?.elim b b.withDraft := by
  induction ds generalizing b with
  | nil => rfl
  | cons d ds ih =>
    calc b.rewrittenByAll ((d :: ds).map fun d => .save d index)
        = (b.rewrittenBy (.save d index)).rewrittenByAll (ds.map fun d => .save d index) := rfl
      _ = (b.withDraft d).rewrittenByAll (ds.map fun d => .save d index) := by
          rw [b.rewrittenBy_save (hds d List.mem_cons_self)]
      _ = ds.getLast?.elim (b.withDraft d) (b.withDraft d).withDraft :=
          ih _ fun d' hd' => hds d' (List.mem_cons_of_mem _ hd')
      _ = (d :: ds).getLast?.elim b b.withDraft := by
          rw [List.getLast?_cons]
          cases ds.getLast? <;> rfl

end Block

namespace Floor

/-- **Drafts of one editor.** An editor that was opened on a block hands over every draft as a draft of that block.
Saved in turn they all succeed and each is a step of the history, but the block ends with the last of them, no block is
added, and no card changes. -/
theorem opened_saves_replace (r : ContentRegistry) (id : Uuid) (tag : String) (value : Json) (calls : List EditorCall) :
    (∀ d ∈ (Editor.withType r (some id) tag value).saves r calls, d.id = some id) ∧
    ∀ (h : History) (handle : Handle) (index : Nat) (w : Nat → Ambient) (b : Block),
      h.store.block? id = some b → b.parentId = handle.card →
      let ds := (Editor.withType r (some id) tag value).saves r calls
      let f := (new h).completeAll r w (ds.map fun d => (handle, .save d index))
      (f.errands.length = ds.length ∧ ∀ e ∈ f.errands, e.succeeded) ∧
      f.history.store.Alike (h.store.putBlock (ds.getLast?.elim b b.withDraft)) ∧
      f.history.undos.length = h.undos.length + ds.length := by
  have hds : ∀ d ∈ (Editor.withType r (some id) tag value).saves r calls, d.id = some id := fun d hd =>
    (Editor.id_of_mem_saves r _ calls d hd).trans (Editor.withType_id r _ _ _)
  refine ⟨hds, fun h handle index w b hb hp => ?_⟩
  have hrewrites : ∀ c ∈ ((Editor.withType r (some id) tag value).saves r calls).map
      (fun d => (handle, Call.save d index)), c.1.card = b.parentId ∧ ∃ ρ, c.2.rewrite? = some ρ ∧ ρ.id = id := by
    intro c hc
    obtain ⟨d, hd, rfl⟩ := List.mem_map.1 hc
    obtain ⟨_, tag', value'⟩ := d
    cases hds _ hd
    exact ⟨hp.symm, _, rfl, rfl⟩
  obtain ⟨⟨es, hes, hlength, hall⟩, hstore, hundos⟩ := completeAll_rewrites r (f := new h) w hrewrites hb
  simp only [List.map_map, Function.comp_def, List.length_map, b.rewrittenByAll_saves hds] at hlength hstore hundos
  have herrands : ((new h).completeAll r w _).errands = es := hes
  exact ⟨herrands ▸ ⟨hlength, hall⟩, hstore, hundos⟩

/-! ## Three drafts of one editor -/

/-- a checkbox opened and committed, the empty checkbox that follows it committed, and a text typed anew and
committed -/
def errata : List Committed :=
  (Editor.withType (.builtin .firstRegistered) (some ⟨10⟩) "checkbox" (Payload.ofChecked true "milk")).saves
    (.builtin .firstRegistered) [.commit, .commit, .cancel, .input "later", .commit]

def amended : Floor :=
  (new History.OneBlock.added).completeAll (.builtin .firstRegistered) (fun i => ⟨30 + i, .nil, .nil⟩)
    (errata.map fun d => (⟨⟨1⟩, 0⟩, .save d 0))

theorem amended_steps : History.OneBlock.added.store.block? ⟨10⟩ = some History.OneBlock.block ∧
    amended.errands.length = 3 ∧ (∀ e ∈ amended.errands, e.succeeded) ∧ amended.history.undos.length = 4 := by
  have hb : History.OneBlock.added.store.block? ⟨10⟩ = some History.OneBlock.block := rfl
  obtain ⟨⟨hlength, hall⟩, -, hundos⟩ := (opened_saves_replace (.builtin .firstRegistered) ⟨10⟩ "checkbox"
    (Payload.ofChecked true "milk") [.commit, .commit, .cancel, .input "later", .commit]).2 History.OneBlock.added
    ⟨⟨1⟩, 0⟩ 0 (fun i => ⟨30 + i, .nil, .nil⟩) History.OneBlock.block hb rfl
  exact ⟨hb, hlength, hall, hundos⟩

/-- Three drafts name the block, and the first two are gone from the card when the third is saved. -/
theorem second_save_replaces_first :
    errata.map (fun d => (d.id, d.tag, d.value)) =
      [(some ⟨10⟩, "checkbox", Payload.ofChecked true "milk"), (some ⟨10⟩, "checkbox", Payload.ofChecked false ""),
        (some ⟨10⟩, "text", .string "later")] ∧
    (amended.history.store.contents ⟨1⟩).map (fun b => (b.id, b.kind, b.value)) =
      [(⟨10⟩, "text", .string "later")] :=
  ⟨rfl, rfl⟩

end Floor

end Corkboard
