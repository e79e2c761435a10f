/-
Blocks of types that are served.

A body shows a block only if the registry has its type. A call takes the type of a new block from the registry itself,
or from an editor that has selected it, and a block that it writes back keeps the type it was read with. `Phase.Served`
says so of all that a call carries from one step to the next, and `Task.Acts.served` is one step of it.
-/
import Corkboard.Proofs.Desk.Alone
import Corkboard.Proofs.Desk.Lineage
import Corkboard.Proofs.Editor.Lines
import Corkboard.Proofs.Editor.States

namespace Corkboard

/-- the registry has the type of a tag -/
def ContentRegistry.Serves (r : ContentRegistry) (tag : String) : Prop := (r.get? tag).isSome

variable {r : ContentRegistry}

/-! ## Stores -/

/-- all blocks are of types that the registry has -/
def Store.Served (r : ContentRegistry) (s : Store) : Prop := ∀ id b, s.block? id = some b → r.Serves b.kind

theorem Block.kind_eq_of_unstamped {b b' : Block} (h : b.unstamped = b'.unstamped) : b.kind = b'.kind :=
  show b.unstamped.kind = b'.unstamped.kind from congrArg Block.kind h

namespace Store

variable {s t : Store}

theorem served_empty : Store.empty.Served r := by simp [Served]

namespace Served

theorem of_alike (h : t.Served r) (ha : s.Alike t) : s.Served r := by
  intro id b hb
  obtain ⟨b', hb', he⟩ := ha.symm.exists_block? hb
  rw [← Block.kind_eq_of_unstamped he]
  exact h id b' hb'

theorem putCard (h : s.Served r) (c : Card) : (s.putCard c).Served r := h

theorem putBlock (h : s.Served r) {b : Block} (hb : r.Serves b.kind) : (s.putBlock b).Served r := by
  intro id x hx
  rw [block?_putBlock] at hx
  split at hx
  · cases hx
    exact hb
  · exact h id x hx

theorem dropBlock (h : s.Served r) (id : Uuid) : (s.dropBlock id).Served r := by
  intro id' x hx
  rw [block?_dropBlock] at hx
  split at hx
  · cases hx
  · exact h id' x hx

end Served

end Store

/-! ## Drafts of an editor -/

theorem Editor.serves_draftOf {line : String} {d : Committed} (hd : draftOf r line = some d) : r.Serves d.tag := by
  -- a commit hands over what the editor holds, and an editor holds drafts of such types only
  have hcommit : ∀ e : Editor, e.state.Stands r → (e.commit r).2.saved? = some d → r.Serves d.tag := by
    intro e hs hsaved
    have hstate : e.state = .typed d.tag d.value := by
      unfold EditorAction.saved? at hsaved
      split at hsaved
      · rename_i c hc
        cases hsaved
        exact saved_commit hc
      · cases hsaved
    rw [hstate] at hs
    exact hs
  have hinput : (new.input r line).1.state.Stands r := stands_input (e := new) leaves_empty line
  unfold draftOf at hd
  split at hd
  · cases hd
  · refine hcommit _ ?_ hd
    split
    · split
      · exact stands_key hinput _
      · exact hinput
    · exact hinput

theorem Editor.serves_enterLines {lines : List String} {d : Committed} (hd : d ∈ enterLines r new lines) :
    r.Serves d.tag := by
  rw [enterLines_eq rfl, List.mem_filterMap] at hd
  obtain ⟨line, -, hd⟩ := hd
  exact serves_draftOf hd

/-! ## Calls -/

/-- what a call brings with it is of a type that the registry has -/
def Call.Served (r : ContentRegistry) : Call → Prop
  | save draft _ => r.Serves draft.tag
  | _ => True

def OrderEdit.Served (r : ContentRegistry) : OrderEdit → Prop
  | insert b _ => r.Serves b.kind
  | _ => True

def Sequel.Served (r : ContentRegistry) : Sequel → Prop
  | answer => True
  | compose _ drafts _ => ∀ d ∈ drafts, r.Serves d.tag

/-- what a call carries is of types that the registry has -/
def Phase.Served (r : ContentRegistry) : Phase → Prop
  | opening kind _ _ | making kind _ _ _ => r.Serves kind
  | drafting kind _ _ sequel => r.Serves kind ∧ sequel.Served r
  | fetching _ kind _ => ∀ k ∈ kind, r.Serves k
  | replacing new _ => r.Serves new.kind
  | waiting edit sequel | reading edit sequel _ | writing edit sequel _ _ => edit.Served r ∧ sequel.Served r
  | noting _ sequel => sequel.Served r
  | seeking _ | done _ => True

variable {h h' : History} {w : Ambient} {card : Uuid} {p p' : Phase}

theorem Store.Served.result {s : Store} (hs : s.Served r) {e : OrderEdit} (he : e.Served r) (c : Card)
    (order : List Uuid) :
    (e.result s c order).Served r := by
  cases e with
  | insert b index => exact (hs.putBlock he).putCard _
  | remove b => exact (hs.putCard _).dropBlock _
  | move id index => exact hs.putCard _

namespace Phase

theorem served_composing {drafts : List Committed} (hd : ∀ d ∈ drafts, r.Serves d.tag) (saved : List Block)
    (index : Nat) :
    (composing saved index drafts).Served r := by
  cases drafts with
  | nil => trivial
  | cons d drafts => exact ⟨hd d List.mem_cons_self, fun x hx => hd x (List.mem_cons_of_mem _ hx)⟩

theorem served_start {k : Call} (hk : k.Served r) : (start r k).Served r := by
  cases k with
  | add tag index =>
    simp only [start]
    cases hget : r.get? tag with
    | none => trivial
    | some h =>
      have hserved : r.get? h.tag = some h := ContentRegistry.get?_tag (ContentRegistry.mem_of_get? hget)
      exact Option.isSome_of_eq_some hserved
  | save draft index =>
    obtain ⟨_ | id, tag, value⟩ := draft
    · exact ⟨hk, trivial⟩
    · rintro _ ⟨⟩
      exact hk
  | compose lines index => exact served_composing (fun d => Editor.serves_enterLines) [] index
  | updateValue id value =>
    intro tag htag
    cases htag
  | delete id => trivial
  | move id index => exact ⟨trivial, trivial⟩

theorem served_afterBlock {sequel : Sequel} (hs : sequel.Served r) (b : Block) : (afterBlock b sequel).Served r := by
  cases sequel with
  | answer => trivial
  | compose saved drafts index => exact served_composing hs _ _

theorem Served.next (hp : p.Served r) (hs : h.store.Served r) (hn : Next h w card p p') : p'.Served r := by
  cases hn with
  | opened _ => exact hp
  | made _ => exact ⟨hp, trivial⟩
  | drafted _ => exact hp
  | sought _ _ => exact ⟨trivial, trivial⟩
  | @fetched id kind value b hb _ =>
    cases kind with
    | none => exact hs id b hb
    | some k => exact hp k rfl
  | locked => exact hp
  | held => exact hp
  | read _ _ => exact hp
  | again _ _ _ _ => exact hp
  | noted => exact served_afterBlock hp _
  | ended => trivial
  | failed _ => trivial

end Phase

/-- **One step of a call** leaves blocks of served types only, and carries on no others. -/
theorem Task.Acts.served (ha : Task.Acts w card h p h' p') (hp : p.Served r) (hs : h.store.Served r) :
    h'.store.Served r ∧ p'.Served r := by
  cases ha with
  | quiet hn => exact ⟨hs, hp.next hs hn⟩
  | @replaced new old _ hc =>
    rw [History.store_of_commit_updateBlock hc]
    exact ⟨hs.putBlock hp, trivial⟩
  | @edited edit sequel attempt read group order _ hg hc =>
    obtain ⟨c, -, -, -, hstore⟩ := (OrderEdit.written_of_commit hg hc).effect
    rw [hstore]
    refine ⟨hs.result hp.1 c order, ?_⟩
    cases edit with
    | insert b index => exact hp.2
    | remove b => trivial
    | move id index => trivial

end Corkboard
