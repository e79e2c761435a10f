/-
Records read back.

Blocks, cards and property templates are written as objects with all their fields. What is written for one of them is
read back as the same record, whatever its identifiers, texts, times, order and options, as long as its payloads are
plain and it nests within the levels of the reader.

- `records_read_back`: the three of them.
-/
import Corkboard.Card
import Corkboard.Property.Template
import Corkboard.Proofs.Json.Shapes

namespace Corkboard

namespace Json

/-- a value of a written type is written out in full, and what is written stands for it -/
structure WrittenOut {α : Type} [Written α] (a : α) : Prop where
  described : (Written.shape α).Describes (Written.toJson a)
  returned : Written.ofJson? (Written.toJson a) = some a

/-- the text of a value is read back as the value, and as all its fields where none may be left out -/
structure ReadsBack {α : Type} [Written α] (a : α) : Prop where
  decoded : decode (encode a) = .ok a
  complete : (Written.shape α).strict.decode (encode a) = .ok (Written.toJson a)

/-- a whole number of 64 bits with a sign -/
def IsWord (n : Int) : Prop := -0x8000000000000000 ≤ n ∧ n ≤ 0x7fffffffffffffff

instance (n : Int) : Decidable (IsWord n) := inferInstanceAs (Decidable (_ ∧ _))

theorem WrittenOut.readsBack {α : Type} [Written α] {a : α} (ha : WrittenOut a)
    (hl : (Written.toJson a).depth ≤ levels) :
    ReadsBack a := by
  refine ⟨?_, Shape.decode_render ha.described.strict hl⟩
  rw [decode, encode, Shape.decode_render ha.described hl, Except.bind, ha.returned]
  rfl

/-! ## Parts of records -/

theorem writtenOut_string (s : String) : WrittenOut s := ⟨.text s, rfl⟩

theorem writtenOut_uuid (u : Uuid) : WrittenOut u := by
  refine ⟨.uuid u, ?_⟩
  have hparse : (some u.render).bind Uuid.parse? = some u := by rw [Option.bind_some, Uuid.parse?_render]
  exact hparse

theorem writtenOut_int {n : Int} (hn : IsWord n) : WrittenOut n := by
  constructor
  · exact .integer hn.1 hn.2
  · rfl

theorem Plain.writtenOut {v : Json} (hv : Plain v) : WrittenOut v := ⟨.any hv, rfl⟩

theorem writtenOut_list {α : Type} [Written α] {as : List α} (has : ∀ a ∈ as, WrittenOut a) : WrittenOut as := by
  constructor
  · refine .list fun v hv => ?_
    obtain ⟨a, ha, rfl⟩ := List.mem_map.1 hv
    exact (has a ha).described
  · have hitems : (as.map Written.toJson).mapM (Written.ofJson? (α := α)) = some as := by
      induction as with
      | nil => rfl
      | cons a as ih =>
        rw [List.map_cons, List.mapM_cons, (has a List.mem_cons_self).returned,
          ih fun x hx => has x (List.mem_cons_of_mem _ hx)]
        rfl
    exact hitems

theorem writtenOut_table {t : Table String Json} (ht : ∀ key v, t.get? key = some v → Plain v) : WrittenOut t := by
  constructor
  · refine .dictionary (.object t.rising fun m hm => ?_)
    exact ht m.1 m.2 ((t.get?_eq_some_iff m.1 m.2).2 hm)
  · have htable : some (Table.ofList t.entries) = some t := congrArg some t.ofList_entries
    exact htable

theorem WrittenOut.field? {α : Type} [Written α] {a : α} (ha : WrittenOut a) {v : Json} {name : String}
    (hv : v.member? name = some (Written.toJson a)) : v.field? name = some a := by
  rw [Json.field?, hv]
  exact ha.returned

/-! ## Records -/

section Records

variable {b : Block} {c : Card} {o : SelectOption} {t : PropertyTemplate}

theorem writtenOut_block (hv : WrittenOut b.value) (hc : WrittenOut b.createdAt) (hu : WrittenOut b.updatedAt) :
    WrittenOut b := by
  constructor
  · refine .record (by simp) rfl ?_
    simp only [List.zip_cons_cons, List.zip_nil_right, List.forall_mem_cons, List.not_mem_nil, false_imp_iff,
      implies_true, and_true]
    exact ⟨.uuid b.id, .uuid b.parentId, .uuid b.rootId, .text b.kind, hv.described, hc.described, hu.described⟩
  · have hid : (Written.toJson b).field? "id" = some b.id := (writtenOut_uuid b.id).field? rfl
    have hparent : (Written.toJson b).field? "parent_id" = some b.parentId := (writtenOut_uuid b.parentId).field? rfl
    have hroot : (Written.toJson b).field? "root_id" = some b.rootId := (writtenOut_uuid b.rootId).field? rfl
    have hkind : (Written.toJson b).field? "type" = some b.kind := (writtenOut_string b.kind).field? rfl
    have hvalue : (Written.toJson b).field? "value" = some b.value := hv.field? rfl
    have hcreated : (Written.toJson b).field? "created_at" = some b.createdAt := hc.field? rfl
    have hupdated : (Written.toJson b).field? "updated_at" = some b.updatedAt := hu.field? rfl
    simp only [Written.ofJson?]
    rw [hid, hparent, hroot, hkind, hvalue, hcreated, hupdated]
    rfl

theorem writtenOut_card (hp : WrittenOut c.properties) : WrittenOut c := by
  have horder : WrittenOut c.contentOrder := writtenOut_list fun id _ => writtenOut_uuid id
  constructor
  · refine .record (by simp) rfl ?_
    simp only [List.zip_cons_cons, List.zip_nil_right, List.forall_mem_cons, List.not_mem_nil, false_imp_iff,
      implies_true, and_true]
    exact ⟨.uuid c.id, .uuid c.rootId, .text c.title, horder.described, hp.described⟩
  · have hid : (Written.toJson c).field? "id" = some c.id := (writtenOut_uuid c.id).field? rfl
    have hroot : (Written.toJson c).field? "root_id" = some c.rootId := (writtenOut_uuid c.rootId).field? rfl
    have htitle : (Written.toJson c).field? "title" = some c.title := (writtenOut_string c.title).field? rfl
    have hcontents : (Written.toJson c).field? "content_order" = some c.contentOrder := horder.field? rfl
    have hproperties : (Written.toJson c).field? "properties" = some c.properties := hp.field? rfl
    simp only [Written.ofJson?]
    rw [hid, hroot, htitle, hcontents, hproperties]
    rfl

theorem writtenOut_option : WrittenOut o := by
  constructor
  · refine .record (by simp) rfl ?_
    simp only [List.zip_cons_cons, List.zip_nil_right, List.forall_mem_cons, List.not_mem_nil, false_imp_iff,
      implies_true, and_true]
    exact ⟨.text o.id, .text o.label, .text o.color⟩
  · have hid : (Written.toJson o).field? "id" = some o.id := (writtenOut_string o.id).field? rfl
    have hlabel : (Written.toJson o).field? "value" = some o.label := (writtenOut_string o.label).field? rfl
    have hcolor : (Written.toJson o).field? "color" = some o.color := (writtenOut_string o.color).field? rfl
    simp only [Written.ofJson?]
    rw [hid, hlabel, hcolor]
    rfl

theorem writtenOut_template : WrittenOut t := by
  have hoptions : WrittenOut t.options := writtenOut_list fun o _ => writtenOut_option
  constructor
  · refine .record (by simp) rfl ?_
    simp only [List.zip_cons_cons, List.zip_nil_right, List.forall_mem_cons, List.not_mem_nil, false_imp_iff,
      implies_true, and_true]
    exact ⟨.text t.id, .text t.name, .text t.tag, hoptions.described⟩
  · have hid : (Written.toJson t).field? "id" = some t.id := (writtenOut_string t.id).field? rfl
    have hname : (Written.toJson t).field? "name" = some t.name := (writtenOut_string t.name).field? rfl
    have htag : (Written.toJson t).field? "type" = some t.tag := (writtenOut_string t.tag).field? rfl
    have hall : (Written.toJson t).field? "options" = some t.options := hoptions.field? rfl
    simp only [Written.ofJson?]
    rw [hid, hname, htag, hall]
    rfl

theorem depth_template (t : PropertyTemplate) : (Written.toJson t).depth ≤ 3 := by
  have hoptions : depthItems (t.options.map Written.toJson) ≤ 1 := by
    refine depthItems_le_iff.2 fun v hv => ?_
    obtain ⟨o, -, rfl⟩ := List.mem_map.1 hv
    simp [Written.toJson, depth, depthMembers]
  have hlist : (Written.toJson t.options).depth ≤ 2 := Nat.succ_le_succ hoptions
  simp [Written.toJson, depth, depthMembers] at hlist ⊢
  omega

end Records

/-- **Records read back.** What is written for a block, a card or a template is read as the same record, and every field
is found in the text, a block's kind under `type`. Payloads are plain, times have 64 bits, and the record nests within
the levels of the reader; nothing is asked of identifiers, texts, orders and options. -/
theorem records_read_back :
    (∀ b : Block, Plain b.value → IsWord b.createdAt → IsWord b.updatedAt → (Written.toJson b).depth ≤ levels →
      ReadsBack b ∧ (Written.toJson b).member? "type" = some (.string b.kind)) ∧
    (∀ c : Card, (∀ templateId v, c.property? templateId = some v → Plain v) → (Written.toJson c).depth ≤ levels →
      ReadsBack c) ∧
    ∀ t : PropertyTemplate, ReadsBack t := by
  refine ⟨fun b hvalue hcreated hupdated hlevels => ⟨?_, rfl⟩, fun c hvalues hlevels => ?_, fun t => ?_⟩
  · exact (writtenOut_block hvalue.writtenOut (writtenOut_int hcreated) (writtenOut_int hupdated)).readsBack hlevels
  · exact (writtenOut_card (writtenOut_table hvalues)).readsBack hlevels
  · exact writtenOut_template.readsBack (Nat.le_trans (depth_template t) (by decide))

/-- a block whose payload nests and has something to escape -/
def note : Block :=
  ⟨⟨10⟩, ⟨1⟩, ⟨900⟩, "checkbox", .object [("checked", .bool true), ("value", .array [.int (-1), .string "a\"\\\n"])],
    10, 20⟩

def noted : Card := ⟨⟨1⟩, ⟨900⟩, "t", [⟨10⟩], .ofList [("p", .string "x")]⟩

theorem note_reads_back : ReadsBack note ∧ ReadsBack noted := by
  obtain ⟨hblocks, hcards, -⟩ := records_read_back
  have hnote : Plain note.value := by
    refine .object (by decide) (List.forall_mem_cons.2 ⟨.bool true, List.forall_mem_cons.2 ⟨.array ?_, nofun⟩⟩)
    exact List.forall_mem_cons.2 ⟨.int (by decide) (by decide), List.forall_mem_cons.2 ⟨.string _, nofun⟩⟩
  have hnoted : ∀ templateId v, noted.property? templateId = some v → Plain v := by
    intro templateId v hv
    obtain ⟨rfl, rfl⟩ : templateId = "p" ∧ v = .string "x" := by
      have hmem := (noted.properties.get?_eq_some_iff templateId v).1 hv
      simpa using List.mem_singleton.1 hmem
    exact .string "x"
  exact ⟨(hblocks note hnote (by decide) (by decide) (by decide)).1, hcards noted hnoted (by decide)⟩

end Json

end Corkboard
