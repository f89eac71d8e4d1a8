import TibiaLogin.ConnectionInput

namespace TibiaLogin.InputDelivery

open Memory ByteOrder Server ConnectionInput

/-- The size that the first two bytes of a stream announce. -/
def announcedSize (s : List UInt8) : Nat := (readU16Le s).toNat

theorem announcedSize_eq_of_take {a b : List UInt8} (h : a.take 2 = b.take 2) (ha : 2 ≤ a.length)
    (hb : 2 ≤ b.length) : announcedSize a = announcedSize b := by
  obtain ⟨x, y, a, rfl⟩ := exists_cons_cons ha
  obtain ⟨x', y', b, rfl⟩ := exists_cons_cons hb
  simp only [List.take_succ_cons, List.take_zero, List.cons.injEq, and_true] at h
  obtain ⟨rfl, rfl⟩ := h
  rfl

/-- The connection holds the first `pos` bytes of `w`, and `rest` is still to
be read. -/
structure Window (w : List UInt8) (pos : Nat) (c : Connection) (rest : List UInt8) : Prop where
  position : c.rwPosition = pos
  le : pos ≤ w.length
  rest_eq : rest = w.drop pos
  held : c.buffer.take pos = w.take pos

theorem window_store {w rest : List UInt8} {pos k : Nat} {c : Connection} (h : Window w pos c rest)
    (hb : c.buffer.length = 2048) (hle : k ≤ rest.length) (hfit : pos + k ≤ 2048) :
    Window w (pos + k) (storeInput (rest.take k) c) (rest.drop k) := by
  have hrest := h.rest_eq
  have hlen : (rest.take k).length = k := List.length_take_of_le hle
  have hw : rest.length = w.length - pos := by rw [hrest, List.length_drop]
  have hpw := h.le
  refine ⟨?_, by omega, ?_, ?_⟩
  · rw [position_storeInput c hle, h.position]
    omega
  · rw [hrest, List.drop_drop]
  · have hpos : c.rwPosition.toNat = pos := by
      rw [h.position]
      rfl
    have htake : (overwrite c.buffer pos (rest.take k)).take (pos + (rest.take k).length) =
        c.buffer.take pos ++ rest.take k := take_overwrite (by omega)
    rw [hlen] at htake
    rw [storeInput]
    simp only [hpos]
    rw [htake, h.held, List.take_add, hrest]

/-- How far a connection that is reading has come in the stream. -/
def Progress (s : List UInt8) (c : Connection) (rest : List UInt8) : Prop :=
  (c.rwSize = 0 ∧ ∃ pos, Window s pos c rest) ∨
    (c.rwSize = announcedSize s ∧ (1 ≤ announcedSize s ∧ announcedSize s ≤ 2048) ∧ 2 ≤ s.length ∧
      ∃ pos, Window (s.drop 2) pos c rest)

structure Reading (start : Int) (s : List UInt8) (c : Connection) (rest : List UInt8) : Prop where
  slot : SlotOk c
  shape : ReadingOk c
  started : c.startTime = start
  progress : Progress s c rest

/-- What the input of a connection can come to. -/
inductive Delivered (start : Int) (s : List UInt8) (c : Connection) (rest : List UInt8) : Prop
  | reading (h : Reading start s c rest)
  | request (hb : c.buffer.length = 2048) (hopen : c.socket ≠ -1) (hr : Requesting c)
      (hsize : c.rwSize = announcedSize s) (hle : 2 + announcedSize s ≤ s.length)
      (hdata : c.buffer.take (announcedSize s) = (s.drop 2).take (announcedSize s))
      (hrest : rest = s.drop (2 + announcedSize s))
  | refused (hb : c.buffer.length = 2048) (hclosed : c.socket = -1) (hpolled : c.state ≠ .free)
      (hbad : announcedSize s = 0 ∨ 2048 < announcedSize s) (hle : 2 ≤ s.length) (hrest : rest = s.drop 2)

theorem progress_header {s rest : List UInt8} {c : Connection} (h : Progress s c rest) (hz : c.rwSize = 0) :
    ∃ pos, Window s pos c rest := by
  rcases h with ⟨-, hw⟩ | ⟨hn, ⟨h1, -⟩, -, -⟩
  · exact hw
  · omega

theorem progress_payload {s rest : List UInt8} {c : Connection} (h : Progress s c rest) (h1 : 1 ≤ c.rwSize) :
    c.rwSize = announcedSize s ∧ (1 ≤ announcedSize s ∧ announcedSize s ≤ 2048) ∧ 2 ≤ s.length ∧
      ∃ pos, Window (s.drop 2) pos c rest := by
  rcases h with ⟨hz, -⟩ | h
  · omega
  · exact h

theorem announcedSize_of_window {s rest : List UInt8} {c : Connection} (h : Window s 2 c rest)
    (hb : c.buffer.length = 2048) : (readU16Le c.buffer).toNat = announcedSize s :=
  announcedSize_eq_of_take h.held (by omega) h.le

theorem inputStep_delivered {arrival : Arrival} {start : Int} {s rest : List UInt8} {c : Connection}
    {r : Bool × Connection × List UInt8} (h : Reading start s c rest) (hcalm : arrival ≠ .failed ∧ arrival ≠ .eof)
    (ho : InputOutcome arrival c rest r) :
    Delivered start s r.2.1 r.2.2 ∧ (r.1 = true → Reading start s r.2.1 r.2.2) := by
  obtain ⟨hslot, hshape, hstart, hprogress⟩ := h
  have hb := hslot.sized
  have hactive : Active c := ⟨hb, by simp [hshape.1], fun _ => Or.inl hshape⟩
  obtain ⟨ha, hr⟩ := active_of_outcome hactive hshape ho
  obtain ⟨h0, -, hmax⟩ := readSize_bounds hshape
  cases ho with
  | idle => exact ⟨.reading ⟨hslot, hshape, hstart, hprogress⟩, fun hf => by cases hf⟩
  | closed hc => exact absurd hc (by simp [hcalm])
  | partly k hk hle hlt =>
      have hread : Reading start s (storeInput (rest.take k) c) (rest.drop k) := by
        refine ⟨⟨ha.sized, hslot.socket, Or.inr (Or.inl (hr rfl))⟩, hr rfl, hstart, ?_⟩
        rcases hprogress with ⟨hz, pos, hw⟩ | ⟨hn, hgood, h2, pos, hw⟩
        · exact Or.inl ⟨hz, pos + k, window_store hw hb hle (by have := hw.position; omega)⟩
        · exact Or.inr ⟨hn, hgood, h2, pos + k, window_store hw hb hle (by have := hw.position; omega)⟩
      exact ⟨.reading hread, fun _ => hread⟩
  | complete k hk hle hfull h1 =>
      obtain ⟨hn, hgood, h2, pos, hw⟩ := progress_payload hprogress h1
      have hpos := hw.position
      have hend : pos + k = announcedSize s := by omega
      have hw' := window_store hw hb hle (by omega)
      rw [hend] at hw'
      have hlen := hw'.le
      rw [List.length_drop] at hlen
      refine ⟨.request ha.sized hslot.socket ⟨rfl, by simp only [storeInput]; omega, by simp only [storeInput]; omega⟩
        hn (by omega) hw'.held ?_, fun hf => by cases hf⟩
      rw [hw'.rest_eq, List.drop_drop]
  | refused k hk hle hfull hz hbad =>
      obtain ⟨pos, hw⟩ := progress_header hprogress hz
      have hpos := hw.position
      have hend : pos + k = 2 := by omega
      have hw' := window_store hw hb hle (by omega)
      rw [hend] at hw'
      rw [announcedSize_of_window hw' (length_storeInput hb hle h0 (by omega))] at hbad
      exact ⟨.refused ha.sized (by rw [closeConnection_eq]) ha.polled hbad hw'.le hw'.rest_eq, fun hf => by cases hf⟩
  | header k hk hle hfull hz hgood =>
      obtain ⟨pos, hw⟩ := progress_header hprogress hz
      have hpos := hw.position
      have hend : pos + k = 2 := by omega
      have hw' := window_store hw hb hle (by omega)
      rw [hend] at hw'
      have hsize := announcedSize_of_window hw' (length_storeInput hb hle h0 (by omega))
      rw [hsize] at hgood
      have hread : Reading start s { storeInput (rest.take k) c with
          rwSize := ((readU16Le (storeInput (rest.take k) c).buffer).toNat : Int), rwPosition := 0 }
          (rest.drop k) := by
        refine ⟨⟨ha.sized, hslot.socket, Or.inr (Or.inl (hr rfl))⟩, hr rfl, hstart, Or.inr ⟨?_, hgood, hw'.le, 0, ?_⟩⟩
        · simp only [hsize]
        · exact ⟨rfl, Nat.zero_le _, hw'.rest_eq, rfl⟩
      exact ⟨.reading hread, fun _ => hread⟩

theorem inputLoop_delivered {arrivals : List Arrival} {start : Int} {s rest : List UInt8} {c : Connection}
    (h : Reading start s c rest) (hcalm : ∀ a ∈ arrivals, a ≠ .failed ∧ a ≠ .eof) :
    ∃ c' rest', inputLoop arrivals c rest = .ok (c', rest') ∧ Delivered start s c' rest' := by
  induction arrivals generalizing c rest with
  | nil => exact ⟨c, rest, rfl, .reading h⟩
  | cons arrival arrivals ih =>
      obtain ⟨ha, hrest⟩ := List.forall_mem_cons.mp hcalm
      obtain ⟨⟨more, c₁, rest₁⟩, hstep, ho⟩ := inputStep_outcome h.slot.sized h.shape arrival rest
      obtain ⟨hd, hr⟩ := inputStep_delivered h ha ho
      simp only [inputLoop]
      rw [hstep, ok_bind]
      cases more with
      | true => exact ih (hr rfl) hrest
      | false => exact ⟨c₁, rest₁, rfl, hd⟩

theorem checkConnectionInput_delivered {visit : Visit} {start : Int} {s rest : List UInt8} {c : Connection}
    (h : Reading start s c rest) (hcalm : ∀ a ∈ visit.arrivals, a ≠ .failed ∧ a ≠ .eof) :
    ∃ c' rest', checkConnectionInput visit c rest = .ok (c', rest') ∧ Delivered start s c' rest' := by
  rw [checkConnectionInput]
  by_cases hidle : c.socket = -1 ∨ visit.pollin = false
  · exact ⟨c, rest, if_pos hidle, .reading h⟩
  · rw [if_neg hidle, if_neg (not_not.mpr h.shape.1)]
    exact inputLoop_delivered h hcalm

end TibiaLogin.InputDelivery
