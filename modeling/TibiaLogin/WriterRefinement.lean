import TibiaLogin.BufferWriter
import Mathlib.Data.List.Induction

namespace TibiaLogin.WriterRefinement

open MachineInt Memory ByteOrder BufferWriter

inductive Op
  | flag (value : Bool)
  | u8 (value : UInt8)
  | u16 (value : UInt16)
  | u16Be (value : UInt16)
  | u32 (value : UInt32)
  | u32Be (value : UInt32)
  | string (str : List UInt8)
  | rewriteU16 (offset : Nat) (value : UInt16)
  | insertU32 (offset : Nat) (value : UInt32)
  deriving DecidableEq, Repr

variable (enc : ClientEncoding)

def Op.apply : Op → BufferWriter → Except Fault BufferWriter
  | .flag value => writeFlag value
  | .u8 value => writeU8 value
  | .u16 value => writeU16 value
  | .u16Be value => BufferWriter.writeU16Be value
  | .u32 value => writeU32 value
  | .u32Be value => BufferWriter.writeU32Be value
  | .string str => writeString enc str
  | .rewriteU16 offset value => BufferWriter.rewriteU16 offset value
  | .insertU32 offset value => BufferWriter.insertU32 offset value

def Op.edit : Op → List UInt8 → List UInt8
  | .flag value, list => list ++ [if value then 1 else 0]
  | .u8 value, list => list ++ [value]
  | .u16 value, list => list ++ writeU16Le value
  | .u16Be value, list => list ++ ByteOrder.writeU16Be value
  | .u32 value, list => list ++ writeU32Le value
  | .u32Be value, list => list ++ ByteOrder.writeU32Be value
  | .string str, list => list ++ stringBytes (outgoing enc str)
  | .rewriteU16 offset value, list =>
      if offset + 2 ≤ list.length then overwrite list offset (writeU16Le value) else list
  | .insertU32 offset value, list =>
      if offset ≤ list.length then list.take offset ++ writeU32Le value ++ list.drop offset else list

/-- Offsets and text lengths are values of the type int. -/
def Op.InRange : Op → Prop
  | .string str => (cString str).length < 2147483648
  | .rewriteU16 offset _ => offset < 2147483648
  | .insertU32 offset _ => offset < 2147483648
  | _ => True

def run (ops : List Op) (w : BufferWriter) : Except Fault BufferWriter := ops.foldlM (fun w op => op.apply enc w) w

def edits (ops : List Op) (list : List UInt8) : List UInt8 := ops.foldl (fun list op => op.edit enc list) list

/-- The writer shows the list: the position is its length, the overflow test
tells whether it has outgrown the buffer, and else the buffer starts with it. -/
structure Shows (n : Nat) (w : BufferWriter) (list : List UInt8) : Prop where
  position_eq : w.position = list.length
  overflowed_iff : w.overflowed = true ↔ n < list.length
  content : w.overflowed = false → w.buffer.take w.position.toNat = list

/-- The run never writes outside the buffer, and after every call the writer
shows the list of the edits made so far. -/
def Refines (buffer : List UInt8) (ops : List Op) : Prop :=
  ∀ before after, ops = before ++ after →
    ∃ w, run enc before ⟨buffer, 0⟩ = .ok w ∧ Shows buffer.length w (edits enc before [])

theorem shows_of_holds {n : Nat} {w : BufferWriter} {list : List UInt8} (h : Holds n w list) : Shows n w list := by
  refine ⟨h.position_eq, h.overflowed_iff, ?_⟩
  intro ho
  rw [h.position_eq, Int.toNat_natCast]
  refine h.content ?_
  rw [← Bool.not_eq_true, h.overflowed_iff] at ho
  omega

theorem length_edit_le (op : Op) (list : List UInt8) : list.length ≤ (op.edit enc list).length := by
  cases op with
  | rewriteU16 offset value =>
      simp only [Op.edit]
      split_ifs with hoff
      · rw [length_overwrite hoff]
      · exact Nat.le_refl _
  | insertU32 offset value =>
      simp only [Op.edit]
      split_ifs with hoff
      · simp only [List.length_append, List.length_take, List.length_drop]
        omega
      · exact Nat.le_refl _
  | _ => exact (List.prefix_append _ _).length_le

theorem length_edits_le (ops : List Op) (list : List UInt8) : list.length ≤ (edits enc ops list).length := by
  induction ops generalizing list with
  | nil => exact Nat.le_refl _
  | cons op ops ih => exact (length_edit_le enc op list).trans (ih _)

/-- One call, from a writer that holds a list: it goes wrong in the one place
where the sum of the check for a rewrite passes the largest int. -/
theorem apply_holds {n : Nat} {w : BufferWriter} {list : List UInt8} (h : Holds n w list) (hn : n < 2147483648)
    {op : Op} (hrange : op.InRange) (hlen : (op.edit enc list).length < 2147483648)
    (hrewrite : ∀ offset value, op = .rewriteU16 offset value → list.length ≤ n → offset + 2 < 2147483648) :
    ∃ w', op.apply enc w = .ok w' ∧ Holds n w' (op.edit enc list) := by
  cases op with
  | string str =>
      simp only [Op.edit, List.length_append] at hlen ⊢
      exact writeString_holds enc h hn str hrange hlen
  | rewriteU16 offset value =>
      simp only [Op.apply, Op.edit] at hlen ⊢
      by_cases hle : list.length ≤ n
      · have hoff := hrewrite offset value rfl hle
        split_ifs with hin
        · exact rewriteU16_holds h offset value hin hle hn
        · refine ⟨w, ?_, h⟩
          have hpast : ¬(wrap32 ((offset : Int) + 2) ≤ w.position ∧ w.overflowed = false) := by
            rw [h.position_eq, wrap32_of_mem (by omega) (by omega)]
            omega
          rw [BufferWriter.rewriteU16, if_neg hpast]
          rfl
      · refine ⟨w, rewriteU16_overflowed _ _ (h.overflowed_iff.mpr (by omega)), ?_⟩
        split_ifs with hin
        · have hl : (overwrite list offset (writeU16Le value)).length = list.length := length_overwrite hin
          exact ⟨h.size_eq, by rw [hl]; exact h.position_eq, fun hfit => absurd hfit (by omega)⟩
        · exact h
  | insertU32 offset value =>
      simp only [Op.apply, Op.edit] at hlen ⊢
      split_ifs at hlen ⊢ with hin
      · refine insertU32_holds h offset value hin ?_
        simp only [List.length_append, List.length_take, List.length_drop, length_writeU32Le] at hlen
        omega
      · refine ⟨w, ?_, h⟩
        rw [BufferWriter.insertU32, if_neg (by rw [h.position_eq]; omega)]
        rfl
  | _ =>
      simp only [Op.edit, List.length_append] at hlen ⊢
      exact writeScalar_holds h _ hlen

theorem rewriteU16_faults {n : Nat} {w : BufferWriter} {list : List UInt8} (h : Holds n w list) (hn : n < 2147483648)
    {offset : Nat} (hlo : 2147483648 ≤ offset + 2) (hhi : offset < 2147483648) (hle : list.length ≤ n)
    (value : UInt16) : BufferWriter.rewriteU16 offset value w = .error (.write offset 2) := by
  have hcheck : wrap32 ((offset : Int) + 2) ≤ w.position := by
    rw [h.position_eq, wrap32]
    omega
  have ho : w.overflowed = false := by
    rw [← Bool.not_eq_true, h.overflowed_iff]
    omega
  have hout : ¬Within w.buffer.length offset (writeU16Le value).length := by
    rw [Within, h.size_eq, length_writeU16Le]
    omega
  rw [BufferWriter.rewriteU16, if_pos ⟨hcheck, ho⟩, storeBytes, if_neg hout]
  rfl

theorem run_append (before after : List Op) (w : BufferWriter) :
    run enc (before ++ after) w = run enc before w >>= run enc after :=
  List.foldlM_append

theorem edits_append (before after : List Op) (list : List UInt8) :
    edits enc (before ++ after) list = edits enc after (edits enc before list) :=
  List.foldl_append

/-- Before every rewrite of the run, its check stays within int or the list
has outgrown the buffer. -/
def RewritesInRange (n : Nat) (ops : List Op) : Prop :=
  ∀ before offset value after, ops = before ++ .rewriteU16 offset value :: after →
    (edits enc before []).length ≤ n → offset + 2 < 2147483648

theorem run_holds {buffer : List UInt8} (hn : buffer.length < 2147483648) {ops : List Op}
    (hrange : ∀ op ∈ ops, op.InRange) (htotal : (edits enc ops []).length < 2147483648)
    (hrewrite : RewritesInRange enc buffer.length ops) :
    ∃ w, run enc ops ⟨buffer, 0⟩ = .ok w ∧ Holds buffer.length w (edits enc ops []) := by
  induction ops using List.reverseRecOn with
  | nil => exact ⟨⟨buffer, 0⟩, rfl, holds_nil buffer⟩
  | append_singleton ops op ih =>
      rw [edits_append] at htotal ⊢
      have hshort := length_edits_le enc [op] (edits enc ops [])
      obtain ⟨w, hw, h⟩ := ih (fun o ho => hrange o (List.mem_append_left _ ho)) (by omega) (by
        rintro before offset value after rfl
        exact hrewrite before offset value (after ++ [op]) (by simp))
      have hop : ∀ offset value, op = .rewriteU16 offset value → (edits enc ops []).length ≤ buffer.length →
          offset + 2 < 2147483648 := by
        rintro offset value rfl
        exact hrewrite ops offset value [] rfl
      obtain ⟨w', hw', h'⟩ := apply_holds enc h hn (hrange op (by simp)) htotal hop
      refine ⟨w', ?_, h'⟩
      rw [run_append, hw, ok_bind]
      exact (List.foldlM_cons ..).trans (by rw [hw']; rfl)

/-- The writer refines the list in every state of the run exactly when no
rewrite within the buffer overflows its own check. -/
theorem writer_refines_list_iff (buffer : List UInt8) (hn : buffer.length < 2147483648) (ops : List Op)
    (hrange : ∀ op ∈ ops, op.InRange) (htotal : (edits enc ops []).length < 2147483648) :
    Refines enc buffer ops ↔ RewritesInRange enc buffer.length ops := by
  constructor
  · rintro hrefines before offset value after hsplit hle
    induction hk : before.length using Nat.strong_induction_on generalizing before offset value after with
    | _ k ih =>
        -- the rewrites before this one are in range, so the writer holds the list here
        have hbefore : RewritesInRange enc buffer.length before := by
          rintro first offset' value' rest rfl hle'
          refine ih first.length ?_ first offset' value' (rest ++ .rewriteU16 offset value :: after) ?_ hle' rfl
          · rw [← hk, List.length_append, List.length_cons]
            omega
          · rw [hsplit, List.append_assoc, List.cons_append]
        have hshort : (edits enc before []).length < 2147483648 := by omega
        obtain ⟨w, hw, h⟩ := run_holds enc hn
          (fun op hop => hrange op (by rw [hsplit]; exact List.mem_append_left _ hop)) hshort hbefore
        by_contra hfar
        have hoff : offset < 2147483648 := hrange (.rewriteU16 offset value) (by rw [hsplit]; simp)
        obtain ⟨w', hw', -⟩ := hrefines (before ++ [.rewriteU16 offset value]) after (by rw [hsplit]; simp)
        have hfault := rewriteU16_faults h hn (by omega) hoff hle value
        rw [run_append, hw, ok_bind] at hw'
        have hstep : run enc [.rewriteU16 offset value] w = .error (.write offset 2) :=
          (List.foldlM_cons ..).trans (by rw [show Op.apply enc (.rewriteU16 offset value) w = _ from hfault]; rfl)
        rw [hstep] at hw'
        cases hw'
  · rintro hrewrite before after rfl
    have hle := length_edits_le enc after (edits enc before [])
    rw [edits_append] at htotal
    obtain ⟨w, hw, h⟩ := run_holds enc hn (fun op hop => hrange op (List.mem_append_left _ hop)) (by omega) (by
      rintro first offset value rest rfl
      exact hrewrite first offset value (rest ++ after) (by simp))
    exact ⟨w, hw, shows_of_holds h⟩

theorem writer_refines_list_six :
    Refines .utf8 [0, 0, 0, 0, 0] [.u16 7, .rewriteU16 0 8, .insertU32 1 9] ↔
      RewritesInRange .utf8 5 [.u16 7, .rewriteU16 0 8, .insertU32 1 9] :=
  writer_refines_list_iff .utf8 [0, 0, 0, 0, 0] (by decide) [.u16 7, .rewriteU16 0 8, .insertU32 1 9]
    (by simp [Op.InRange]) (by decide)

/-- The check of a rewrite at the largest offset wraps around, and the write
goes outside the buffer. -/
theorem writer_escapes_at_int_max :
    ¬Refines .utf8 [0, 0] [.rewriteU16 2147483647 0] ∧
      run .utf8 [.rewriteU16 2147483647 0] ⟨[0, 0], 0⟩ = .error (.write 2147483647 2) := by
  have hfault : run .utf8 [.rewriteU16 2147483647 0] ⟨[0, 0], 0⟩ = .error (.write 2147483647 2) := by decide
  refine ⟨?_, hfault⟩
  intro hrefines
  obtain ⟨w, hw, -⟩ := hrefines [.rewriteU16 2147483647 0] [] (by simp)
  rw [hfault] at hw
  cases hw

end TibiaLogin.WriterRefinement
