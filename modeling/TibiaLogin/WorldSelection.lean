import TibiaLogin.ReplyCompleteness

namespace TibiaLogin.WorldSelection

open MachineInt Memory ByteOrder BufferReader BufferWriter Wire Query LoginQuery Server WorldQuery ReplyCompleteness

structure World where
  name : List UInt8
  type : UInt8
  numPlayers : UInt16
  maxPlayers : UInt16
  onlinePeak : UInt16
  onlinePeakTimestamp : UInt32
  lastStartup : UInt32
  lastShutdown : UInt32
  deriving DecidableEq, Repr

def World.numbers (x : World) : List UInt8 :=
  [x.type] ++ (writeU16Le x.numPlayers ++ (writeU16Le x.maxPlayers ++ (writeU16Le x.onlinePeak ++
    (writeU32Le x.onlinePeakTimestamp ++ (writeU32Le x.lastStartup ++ writeU32Le x.lastShutdown)))))

inductive Entry : World → List UInt8 → Prop
  | mk {x : World} {name : List UInt8} (hname : WireString name x.name) : Entry x (name ++ x.numbers)

/-- A well-formed Ok response to GetWorlds. -/
def OkReply (worlds : List World) (reply : List UInt8) : Prop :=
  ∃ entries, List.Forall₂ Entry worlds entries ∧
    reply = 0 :: UInt8.ofNat worlds.length :: entries.flatten

/-- The name has no terminator and its UTF-8 form fits the field of thirty bytes. -/
structure World.Storable (enc : ClientEncoding) (x : World) : Prop where
  nonzero : 0 ∉ x.name
  fits : (converted enc x.name).length ≤ 29

def World.info (enc : ClientEncoding) (x : World) : WorldInfo where
  name := converted enc x.name ++ List.replicate (30 - (converted enc x.name).length) 0
  type := x.type.toNat
  numPlayers := x.numPlayers.toNat
  maxPlayers := x.maxPlayers.toNat
  onlinePeak := x.onlinePeak.toNat
  onlinePeakTimestamp := wrap32 x.onlinePeakTimestamp.toNat
  lastStartup := wrap32 x.lastStartup.toNat
  lastShutdown := wrap32 x.lastShutdown.toNat

/-- Equal names up to the case of ASCII letters. -/
def SameName (a b : List UInt8) : Prop := a.map toLower = b.map toLower

instance (a b : List UInt8) : Decidable (SameName a b) := inferInstanceAs (Decidable (_ = _))

/-- The earliest of the worlds with the most players. -/
def Fullest (worlds : List World) (x : World) : Prop :=
  ∃ before after, worlds = before ++ x :: after ∧ (∀ y ∈ before, y.numPlayers < x.numPlayers) ∧
    ∀ y ∈ after, y.numPlayers ≤ x.numPlayers

theorem toLower_eq_zero {b : UInt8} : toLower b = 0 ↔ b = 0 := by
  have h : ∀ b : UInt8, toLower b = 0 ↔ b = 0 := forall_byte (by decide +kernel)
  exact h b

theorem stringEqualsIgnoreCase_iff (a b : List UInt8) :
    stringEqualsIgnoreCase a b = true ↔ SameName (cString a) (cString b) := by
  have hend : ∀ b : List UInt8, toLower 0 = toLower (b.headD 0) ↔ SameName [] (cString b) := by
    intro b
    rw [SameName, List.map_nil, eq_comm, toLower_eq_zero.mpr rfl, toLower_eq_zero, ← cString_eq_nil,
      @eq_comm _ [], List.map_eq_nil_iff]
  induction a generalizing b with
  | nil =>
      rw [stringEqualsIgnoreCase, decide_eq_true_eq]
      exact hend b
  | cons x a ih =>
      rw [stringEqualsIgnoreCase]
      by_cases hx : x = 0
      · subst hx
        rw [if_neg (by simp), decide_eq_true_eq]
        exact hend b
      · rw [cString_cons_of_ne hx]
        by_cases heq : toLower x = toLower (b.headD 0)
        · have hhead : b.headD 0 ≠ 0 := by
            intro hz
            rw [hz, toLower_eq_zero.mpr rfl, toLower_eq_zero] at heq
            exact hx heq
          cases b with
          | nil => exact absurd rfl hhead
          | cons y b =>
              rw [List.headD_cons] at heq hhead
              rw [List.headD_cons, if_pos ⟨hx, heq⟩, List.tail_cons, cString_cons_of_ne hhead]
              refine (ih b).trans ?_
              simp only [SameName, List.map_cons, List.cons.injEq, heq, true_and]
        · rw [if_neg (fun h => heq h.2), decide_eq_true_eq]
          refine iff_of_false heq ?_
          intro hsame
          cases b with
          | nil => simp [SameName, cString] at hsame
          | cons y b =>
              by_cases hy : y = 0
              · simp [SameName, cString, hy] at hsame
              · rw [cString_cons_of_ne hy] at hsame
                simp only [SameName, List.map_cons, List.cons.injEq] at hsame
                exact heq hsame.1

def select (enc : ClientEncoding) (worldName : List UInt8) : List World → Bool → WorldInfo → WorldInfo
  | [], _, outWorld => outWorld
  | x :: worlds, first, outWorld =>
      if stringEmpty worldName then
        select enc worldName worlds false
          (if first ∨ outWorld.numPlayers < x.numPlayers.toNat then x.info enc else outWorld)
      else if stringEqualsIgnoreCase worldName (x.info enc).name then x.info enc
      else select enc worldName worlds false outWorld

section

variable (enc : ClientEncoding) {buf before rest : List UInt8}

theorem readScalar_at {α : Type} [OfNat α 0] (decode : List UInt8 → α) {bytes : List UInt8} {p : Nat}
    (h : buf.drop p = bytes ++ rest) (hpos : 0 < bytes.length) (hlen : buf.length < 2147483648) :
    readScalar bytes.length decode ⟨buf, (p : Nat)⟩ = .ok (decode bytes, ⟨buf, (p + bytes.length : Nat)⟩) ∧
      buf.drop (p + bytes.length) = rest := by
  have hp : p ≤ buf.length := by
    by_contra hgt
    rw [List.drop_eq_nil_of_le (by omega)] at h
    have hz := congrArg List.length h
    simp only [List.length_nil, List.length_append] at hz
    omega
  have htake : (buf.take p).length = p := by
    rw [List.length_take]
    omega
  have hread : readScalar bytes.length decode ⟨buf, ((buf.take p).length : Nat)⟩ = _ :=
    readScalar_bytes decode bytes rest (by rw [← h, List.take_append_drop]) hlen
  rw [List.length_append, htake] at hread
  refine ⟨hread, ?_⟩
  rw [← List.drop_drop, h, List.drop_left]

theorem readU8_at {b : UInt8} {p : Nat} (h : buf.drop p = [b] ++ rest) (hlen : buf.length < 2147483648) :
    readU8 ⟨buf, (p : Nat)⟩ = .ok (b, ⟨buf, (p + 1 : Nat)⟩) ∧ buf.drop (p + 1) = rest := by
  have hread := readScalar_at (·.headD 0) h (by simp) hlen
  exact hread

theorem readU16_at {v : UInt16} {p : Nat} (h : buf.drop p = writeU16Le v ++ rest) (hlen : buf.length < 2147483648) :
    readU16 ⟨buf, (p : Nat)⟩ = .ok (v, ⟨buf, (p + 2 : Nat)⟩) ∧ buf.drop (p + 2) = rest := by
  have hread := readScalar_at readU16Le h (by simp) hlen
  have hv := readU16Le_writeU16Le v []
  rw [List.append_nil] at hv
  rw [hv] at hread
  exact hread

theorem readU32_at {v : UInt32} {p : Nat} (h : buf.drop p = writeU32Le v ++ rest) (hlen : buf.length < 2147483648) :
    readU32 ⟨buf, (p : Nat)⟩ = .ok (v, ⟨buf, (p + 4 : Nat)⟩) ∧ buf.drop (p + 4) = rest := by
  have hread := readScalar_at readU32Le h (by simp) hlen
  have hv := readU32Le_writeU32Le v []
  rw [List.append_nil] at hv
  rw [hv] at hread
  exact hread

theorem readWorld_entry {x : World} {entry : List UInt8} (h : Entry x entry) (hx : x.Storable enc)
    (hbuf : buf = before ++ (entry ++ rest)) (hlen : buf.length < 1073741824) :
    readWorld enc ⟨buf, (before.length : Nat)⟩ = .ok (x.info enc, ⟨buf, ((before ++ entry).length : Nat)⟩) := by
  cases h with
  | @mk name hname =>
      have hd : (List.replicate 30 (0 : UInt8)).length < 2147483648 := by simp
      have hfits := hx.fits
      have hbuf₁ : buf = before ++ (name ++ (x.numbers ++ rest)) := by rw [hbuf, List.append_assoc]
      have h₁ := readString_wire_short enc hd hbuf₁ hlen hname
      rw [List.length_replicate, field_of_lt enc (by omega)] at h₁
      obtain ⟨p, hp⟩ : ∃ p, p = (before ++ name).length := ⟨_, rfl⟩
      have hend : (before ++ (name ++ x.numbers)).length = p + 1 + 2 + 2 + 2 + 4 + 4 + 4 := by
        rw [hp, ← List.append_assoc, List.length_append]
        rfl
      have d₁ : buf.drop p = x.numbers ++ rest := by rw [hp, hbuf₁, ← List.append_assoc, List.drop_left]
      simp only [World.numbers, List.append_assoc] at d₁
      have hlen' : buf.length < 2147483648 := by omega
      obtain ⟨h₂, d₂⟩ := readU8_at d₁ hlen'
      obtain ⟨h₃, d₃⟩ := readU16_at d₂ hlen'
      obtain ⟨h₄, d₄⟩ := readU16_at d₃ hlen'
      obtain ⟨h₅, d₅⟩ := readU16_at d₄ hlen'
      obtain ⟨h₆, d₆⟩ := readU32_at d₅ hlen'
      obtain ⟨h₇, d₇⟩ := readU32_at d₆ hlen'
      obtain ⟨h₈, -⟩ := readU32_at d₇ hlen'
      rw [← hp] at h₁
      rw [hend, readWorld_eq h₁ h₂ h₃ h₄ h₅ h₆ h₇ h₈]
      rfl

theorem readWorlds_entries (worldName : List UInt8) {worlds : List World} {entries : List (List UInt8)}
    (h : List.Forall₂ Entry worlds entries) (hx : ∀ x ∈ worlds, x.Storable enc)
    (hbuf : buf = before ++ (entries.flatten ++ rest)) (hlen : buf.length < 1073741824) (first : Bool)
    (outWorld : WorldInfo) :
    ∃ r, readWorlds enc worldName worlds.length first outWorld ⟨buf, (before.length : Nat)⟩ =
      .ok (select enc worldName worlds first outWorld, r) := by
  induction h generalizing before first outWorld with
  | nil => exact ⟨_, rfl⟩
  | @cons x entry worlds entries he hrest ih =>
      have hbuf₁ : buf = before ++ (entry ++ (entries.flatten ++ rest)) := by simp [hbuf]
      have hbuf₂ : buf = before ++ entry ++ (entries.flatten ++ rest) := by simp [hbuf]
      have hread := readWorld_entry enc he (hx x List.mem_cons_self) hbuf₁ hlen
      have hnext := ih (fun y hy => hx y (List.mem_cons_of_mem _ hy)) hbuf₂
      rw [List.length_cons, readWorlds, hread, ok_bind]
      simp only [select]
      by_cases hempty : stringEmpty worldName = true
      · rw [if_pos hempty, if_pos hempty]
        exact hnext false _
      · rw [if_neg hempty, if_neg hempty]
        by_cases hname : stringEqualsIgnoreCase worldName (x.info enc).name = true
        · rw [if_pos hname, if_pos hname]
          exact ⟨_, rfl⟩
        · rw [if_neg hname, if_neg hname]
          exact hnext false outWorld

theorem select_fullest {worldName : List UInt8} (hempty : stringEmpty worldName = true) {seen : List World}
    {best : World} (h : Fullest seen best) (worlds : List World) :
    ∃ x, Fullest (seen ++ worlds) x ∧ select enc worldName worlds false (best.info enc) = x.info enc := by
  induction worlds generalizing seen best with
  | nil =>
      rw [List.append_nil]
      exact ⟨best, h, rfl⟩
  | cons y worlds ih =>
      have happ : seen ++ y :: worlds = seen ++ [y] ++ worlds := by simp
      obtain ⟨before, after, rfl, hbefore, hafter⟩ := h
      rw [happ]
      simp only [select, if_pos hempty]
      have hcmp : (best.info enc).numPlayers < (y.numPlayers.toNat : Int) ↔ best.numPlayers < y.numPlayers := by
        rw [UInt16.lt_iff_toNat_lt]
        exact Int.ofNat_lt
      by_cases hlt : best.numPlayers < y.numPlayers
      · rw [if_pos (Or.inr (hcmp.mpr hlt))]
        refine ih ⟨before ++ best :: after, [], by simp, ?_, by simp⟩
        intro z hz
        rw [List.mem_append, List.mem_cons] at hz
        rw [UInt16.lt_iff_toNat_lt] at hlt ⊢
        rcases hz with hz | rfl | hz
        · have hb := hbefore z hz
          rw [UInt16.lt_iff_toNat_lt] at hb
          omega
        · exact hlt
        · have ha := hafter z hz
          rw [UInt16.le_iff_toNat_le] at ha
          omega
      · rw [if_neg (by rw [hcmp]; simp [hlt])]
        refine ih ⟨before, after ++ [y], by simp, hbefore, ?_⟩
        intro z hz
        rw [List.mem_append, List.mem_singleton] at hz
        rcases hz with hz | rfl
        · exact hafter z hz
        · rw [UInt16.le_iff_toNat_le]
          rw [UInt16.lt_iff_toNat_lt] at hlt
          omega

theorem cString_info {x : World} (hx : x.Storable enc) : cString (x.info enc).name = converted enc x.name := by
  have hfits := hx.fits
  have hzero : 0 ∉ converted enc x.name := by
    cases enc with
    | latin1 => exact Latin1.zero_mem_encodeLatin1 hx.nonzero
    | utf8 => exact hx.nonzero
  have hfield : cString (field enc 30 (some x.name)) = converted enc x.name := cString_field enc hzero (by omega)
  rw [field_of_lt enc (by omega)] at hfield
  exact hfield

theorem select_named {worldName : List UInt8} (hname : stringEmpty worldName = false) {worlds : List World}
    (hx : ∀ x ∈ worlds, x.Storable enc) (first : Bool) (outWorld : WorldInfo) :
    select enc worldName worlds first outWorld =
      ((worlds.find? fun x => SameName (cString worldName) (converted enc x.name)).map (·.info enc)).getD outWorld := by
  induction worlds generalizing first with
  | nil => rfl
  | cons x worlds ih =>
      have hsame := stringEqualsIgnoreCase_iff worldName (x.info enc).name
      rw [cString_info enc (hx x List.mem_cons_self)] at hsame
      rw [select, if_neg (by rw [hname]; simp)]
      by_cases heq : SameName (cString worldName) (converted enc x.name)
      · rw [if_pos (hsame.mpr heq), List.find?_cons_of_pos (by simpa using heq)]
        rfl
      · rw [if_neg (fun h => heq (hsame.mp h)), List.find?_cons_of_neg (by simpa using heq)]
        exact ih (fun y hy => hx y (List.mem_cons_of_mem _ hy)) false

end

/-- The record that a complete response leads to: without a configured name the
earliest of the fullest worlds, else the first world of that name. -/
theorem world_selection {σ : Type} (enc : ClientEncoding) (exchange : Exchange σ) (stray : WorldInfo)
    (worldName : List UInt8) (s : Session σ) {worlds : List World} {reply : List UInt8}
    (hreply : replyOf (exchange s.client (requestFrame worldsRequest) 4096) = some reply)
    (hok : OkReply worlds reply) (hcount : worlds.length ≤ 255) (hx : ∀ x ∈ worlds, x.Storable enc) :
    ∃ world s', getWorld enc exchange stray worldName s = .ok (0, world, s') ∧
      (cString worldName = [] →
        (worlds = [] ∧ world = .zeroed) ∨ ∃ x, Fullest worlds x ∧ world = x.info enc) ∧
      (cString worldName ≠ [] →
        world = ((worlds.find? fun x => SameName (cString worldName) (converted enc x.name)).map
          (·.info enc)).getD .zeroed) := by
  obtain ⟨entries, hentries, hr⟩ := hok
  have hn : (UInt8.ofNat worlds.length).toNat = worlds.length :=
    UInt8.toNat_ofNat_of_lt' (show worlds.length < 256 by omega)
  have hlen := length_of_replyOf hreply
  have hbuf : reply = [0, UInt8.ofNat worlds.length] ++ (entries.flatten ++ []) := by
    rw [hr, List.append_nil]
    rfl
  obtain ⟨r, hread⟩ := readWorlds_entries enc worldName hentries hx hbuf (by omega) true .zeroed
  have hread' : readWorlds enc worldName worlds.length true .zeroed ⟨reply, 2⟩ = _ := hread
  have hsecond : (reply.drop 1).headD 0 = UInt8.ofNat worlds.length := by rw [hr]; rfl
  have hget : ∃ s', getWorld enc exchange stray worldName s =
      .ok (0, select enc worldName worlds true .zeroed, s') := by
    rw [getWorld_eq, received_ok (by rw [hr]; rfl) hreply, ok_bind]
    simp only [worldResult]
    rw [readU8_second, ok_bind]
    simp only [hsecond, hn, hread']
    exact ⟨_, rfl⟩
  obtain ⟨s', hs'⟩ := hget
  refine ⟨select enc worldName worlds true .zeroed, s', hs', ?_, ?_⟩
  · intro hname
    have hempty : stringEmpty worldName = true := decide_eq_true (cString_eq_nil.mp hname)
    cases worlds with
    | nil => exact Or.inl ⟨rfl, rfl⟩
    | cons x worlds =>
        have hfirst : Fullest [x] x := ⟨[], [], rfl, by simp, by simp⟩
        obtain ⟨y, hy, hselect⟩ := select_fullest enc hempty hfirst worlds
        refine Or.inr ⟨y, hy, ?_⟩
        rw [select, if_pos hempty, if_pos (Or.inl rfl)]
        exact hselect
  · intro hname
    have hempty : stringEmpty worldName = false := decide_eq_false fun h => hname (cString_eq_nil.mpr h)
    exact select_named enc hempty hx true .zeroed

def antica : World := ⟨[65], 0, 5, 0, 0, 0, 0, 0⟩

def bella : World := ⟨[66], 0, 3, 0, 0, 0, 0, 0⟩

theorem world_selection_second :
    ∃ world s', getWorld .latin1 LoginHandler.scripted .zeroed [98]
        ⟨[0 :: 2 :: ([1, 0, 65] ++ antica.numbers ++ ([1, 0, 66] ++ bella.numbers))], []⟩ = .ok (0, world, s') ∧
      world = bella.info .latin1 := by
  have hstorable : ∀ x ∈ [antica, bella], x.Storable .latin1 := by
    simp only [List.mem_cons, List.not_mem_nil, or_false, forall_eq_or_imp, forall_eq]
    exact ⟨⟨by decide, by decide⟩, ⟨by decide, by decide⟩⟩
  have hentries : List.Forall₂ Entry [antica, bella] [[1, 0, 65] ++ antica.numbers, [1, 0, 66] ++ bella.numbers] :=
    .cons (.mk (.short 1 0 [65] (by decide) rfl)) (.cons (.mk (.short 1 0 [66] (by decide) rfl)) .nil)
  obtain ⟨world, s', hget, -, hnamed⟩ := world_selection .latin1 LoginHandler.scripted .zeroed [98]
    ⟨[0 :: 2 :: ([1, 0, 65] ++ antica.numbers ++ ([1, 0, 66] ++ bella.numbers))], []⟩ rfl ⟨_, hentries, rfl⟩
    (by decide) hstorable
  refine ⟨world, s', hget, ?_⟩
  rw [hnamed (by decide)]
  rfl

end TibiaLogin.WorldSelection
