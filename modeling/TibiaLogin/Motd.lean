import TibiaLogin.StatusHandler

namespace TibiaLogin.Motd

open MachineInt Memory Text Server WorldQuery StatusDocument ReadConfig StatusHandler

/-- The message stands behind the first line, whole, or there is none. -/
def KeptOrDropped (v : List UInt8) (config : Config) : Prop :=
  (cString config.motd = [] ∧
    ∀ timeNow result world, cString (statusFields config timeNow result world).motd = []) ∨
  (cString config.motd = decimal (stringHash v).toNat ++ 10 :: v ∧
    ∀ timeNow result world, cString (statusFields config timeNow result world).motd = v)

/-- The message fits the array behind the line with its hash, or it does not even fit by itself. -/
def FitsOrNot (v : List UInt8) : Prop :=
  (decimal (stringHash v).toNat).length + 1 + v.length < 256 ∨ ¬(0 < wrap32 v.length ∧ wrap32 v.length < 256)

instance (v : List UInt8) : Decidable (FitsOrNot v) := inferInstanceAs (Decidable (_ ∨ _))

theorem kept {v : List UInt8} {config : Config} (h : cString config.motd = decimal (stringHash v).toNat ++ 10 :: v) :
    KeptOrDropped v config := by
  refine Or.inr ⟨h, fun timeNow result world => ?_⟩
  rw [statusFields, cString_skipLine, h, skip_hashLine]

theorem dropped {v : List UInt8} {config : Config} (h : cString config.motd = []) : KeptOrDropped v config := by
  refine Or.inl ⟨h, fun timeNow result world => ?_⟩
  rw [statusFields, cString_skipLine, h]
  rfl

theorem kept_iff {v : List UInt8} {config : Config} (hne : v ≠ [])
    (hmotd : cString config.motd =
      if copied 256 v = [] then []
      else (decimal (stringHash (copied 256 v)).toNat ++ 10 :: copied 256 v).take 255) :
    KeptOrDropped v config ↔ FitsOrNot v := by
  have hpos : 0 < v.length := List.length_pos_of_ne_nil hne
  by_cases hcopied : 0 < wrap32 v.length ∧ wrap32 v.length < 256
  · have hcopy : copied 256 v = v.take (wrap32 v.length).toNat := if_pos hcopied
    have hle : (wrap32 v.length).toNat ≤ v.length := by
      rw [wrap32] at hcopied ⊢
      omega
    have hlen : (copied 256 v).length = (wrap32 v.length).toNat := by
      rw [hcopy, List.length_take, Nat.min_eq_left hle]
    have hsome : copied 256 v ≠ [] := by
      rw [← List.length_pos_iff, hlen]
      omega
    rw [if_neg hsome] at hmotd
    have hcut := congrArg List.length hmotd
    rw [List.length_take, List.length_append, List.length_cons, hlen] at hcut
    constructor
    · rintro (⟨h, -⟩ | ⟨h, -⟩)
      · rw [h, List.length_nil] at hcut
        omega
      · have hwhole := congrArg List.length h
        rw [List.length_append, List.length_cons] at hwhole
        exact Or.inl (by omega)
    · rintro (hfits | hnot)
      · have hlength : (wrap32 v.length).toNat = v.length := by
          rw [wrap32]
          omega
        rw [hcopy, hlength, List.take_length, List.take_of_length_le] at hmotd
        · exact kept hmotd
        · rw [List.length_append, List.length_cons]
          omega
      · exact absurd hcopied hnot
  · have hnone : copied 256 v = [] := if_neg hcopied
    rw [if_pos hnone] at hmotd
    exact ⟨fun _ => Or.inr hcopied, fun _ => dropped hmotd⟩

theorem cString_readMotd {env : Env} {config₀ config : Config} (hsized : config₀.Sized)
    (hread : readConfig env config₀ = (true, config)) {v : List UInt8}
    (hv : env "SENJA_LOGINSERVER_MOTD" = some v) (hne : v ≠ []) (hz : 0 ∉ v) :
    cString config.motd =
      if copied 256 v = [] then []
      else (decimal (stringHash (copied 256 v)).toNat ++ 10 :: copied 256 v).take 255 := by
  obtain ⟨qmPassword, rfl⟩ := readConfig_eq_true hread
  have henv : envStr env "SENJA_LOGINSERVER_MOTD" "Welcome to Tibia!" = v := by rw [envStr, hv, Option.getD_some]
  have hload := cString_loadMotd hsized.motd (by rw [cString_of_nonzero hz]; exact hne)
  rw [cString_of_nonzero hz] at hload
  rw [readServiceInfo, henv]
  exact hload

/-- The message is kept whole or dropped whole just where it fits behind its
hash, or does not fit by itself. In between, the line with the hash pushes the
end of the message out, and nothing looks at the result of the formatting. -/
theorem motd_kept_or_dropped_iff {env : Env} {config₀ config : Config} (hsized : config₀.Sized)
    (hread : readConfig env config₀ = (true, config)) {v : List UInt8}
    (hv : env "SENJA_LOGINSERVER_MOTD" = some v) (hne : v ≠ []) (hz : 0 ∉ v) :
    KeptOrDropped v config ↔ FitsOrNot v :=
  kept_iff hne (cString_readMotd hsized hread hv hne hz)

def motdEnv (v : List UInt8) : Env := fun name =>
  if name = "SENJA_QM_PASSWORD" then some (text "x") else if name = "SENJA_LOGINSERVER_MOTD" then some v else none

theorem readConfig_motdEnv (v : List UInt8) :
    readConfig (motdEnv v) .zeroed = (true, (readConfig (motdEnv v) .zeroed).2) := by
  rw [readConfig_of_password (show motdEnv v "SENJA_QM_PASSWORD" = some (text "x") from rfl)]

theorem motd_kept_or_dropped_hello :
    KeptOrDropped (text "Hello World") (readConfig (motdEnv (text "Hello World")) .zeroed).2 ↔
      FitsOrNot (text "Hello World") :=
  motd_kept_or_dropped_iff zeroed_sized (readConfig_motdEnv (text "Hello World")) (v := text "Hello World") rfl
    (by decide) (by decide)

/-- A message of 255 letters leaves no room for the line with its hash. -/
theorem motd_shortened :
    ¬KeptOrDropped (List.replicate 255 97) (readConfig (motdEnv (List.replicate 255 97)) .zeroed).2 := by
  have hlen : (List.replicate 255 (97 : UInt8)).length = 255 := List.length_replicate
  have hz : (0 : UInt8) ∉ List.replicate 255 97 := fun h => absurd (List.eq_of_mem_replicate h) (by decide)
  have hne : List.replicate 255 (97 : UInt8) ≠ [] := by rw [← List.length_pos_iff, hlen]; decide
  have hmotd := cString_readMotd zeroed_sized (readConfig_motdEnv (List.replicate 255 97)) rfl hne hz
  have hfit : ¬FitsOrNot (List.replicate 255 97) := by
    rw [FitsOrNot, hlen]
    have hwrap : 0 < wrap32 (255 : Nat) ∧ wrap32 (255 : Nat) < 256 := by decide
    rintro (h | h)
    · omega
    · exact h hwrap
  exact mt (kept_iff hne hmotd).mp hfit

end TibiaLogin.Motd
