import StreamMix.Wire.Interop.Texts

namespace StreamMix.Wire

open Js (Number)
open Json (Syntax)
open Unicode (Scalar utf16 encode)
open GoJson (struct)

structure SameStats (p : Ts.StatsPayload) (s : Go.Stats) : Prop where
  uptimeS : p.uptimeS = .fin s.uptimeS
  packetsSent : p.packetsSent = .fin s.packetsSent
  subscribers : p.subscribers = .fin s.subscribers
  tracksActive : p.tracksActive = .fin s.tracksActive

/-- A number of the integer type that is printed digit by digit. -/
def Exact (x : Number) : Prop :=
  ∃ n : Nat, n < 2 ^ 63 ∧ x = .fin n ∧ Ts.numberText x = Json.decimal n

def statsMembers (a b c d : List Nat) : List (List Nat × List Nat) :=
  [(Ts.units "uptime_s", a), (Ts.units "packets_sent", b), (Ts.units "subscribers", c),
    (Ts.units "tracks_active", d)]

def statsValue (a b c d : Syntax) : List (List Nat × Syntax) :=
  [(Ts.units "uptime_s", a), (Ts.units "packets_sent", b), (Ts.units "subscribers", c),
    (Ts.units "tracks_active", d)]

theorem written_stats {a b c d : List Nat} (ha : Written a v) (hb : Written b w)
    (hc : Written c x) (hd : Written d y) :
    Written (Json.object (statsMembers a b c d)) (.obj (statsValue v w x y)) :=
  written_object (.cons (written_member (by decide) ha)
    (.cons (written_member (by decide) hb)
      (.cons (written_member (by decide) hc)
        (.cons (written_member (by decide) hd) .nil))))

theorem struct_stats (ha : a < 2 ^ 63) (hb : b < 2 ^ 63) (hc : c < 2 ^ 63) (hd : d < 2 ^ 63) :
    struct Go.statsFields (.obj (statsValue (numberOf a) (numberOf b) (numberOf c) (numberOf d)))
      ⟨0, 0, 0, 0⟩ = some ⟨a, b, c, d⟩ := by
  apply (struct_cons rfl (int64_decimal ha _ _ _)).trans
  apply (struct_cons rfl (int64_decimal hb _ _ _)).trans
  apply (struct_cons rfl (int64_decimal hc _ _ _)).trans
  apply (struct_cons rfl (int64_decimal hd _ _ _)).trans
  rfl

theorem number_of_get (hget : Ts.get v key = some (.num x))
    (hv : Ts.get v key = some (numberOf n).value) : x = .ofDecimal n := by
  cases hget.symm.trans hv
  rfl

theorem stats_of_go (h : Go.decodeStats buf = .ok s) (hb : Go.encodeStats s = .ok b) :
    (∃ p, Ts.decodeStats b = .ok p ∧ SameStats p s) ↔
      ∀ i ∈ [s.uptimeS, s.packetsSent, s.subscribers, s.tracksActive],
        Number.ofDecimal i = .fin i := by
  obtain ⟨-, h1, h2, h3, h4⟩ := Go.decodeStats_eq_ok.mp h
  obtain ⟨a, b, c, d⟩ := s
  obtain ⟨a, rfl⟩ := Int.eq_ofNat_of_zero_le h1
  obtain ⟨b, rfl⟩ := Int.eq_ofNat_of_zero_le h2
  obtain ⟨c, rfl⟩ := Int.eq_ofNat_of_zero_le h3
  obtain ⟨d, rfl⟩ := Int.eq_ofNat_of_zero_le h4
  have htext : Go.encodeStats ⟨a, b, c, d⟩ = Go.encJSON (Json.object (statsMembers (Json.decimal a)
      (Json.decimal b) (Json.decimal c) (Json.decimal d))) := by
    simp only [Go.encodeStats, intText_natCast]
    rfl
  rw [htext] at hb
  obtain ⟨rfl, hsize⟩ := Go.encJSON_eq_ok hb
  have hread := Ts.decodeJson_encode (written_stats (written_decimal a) (written_decimal b)
    (written_decimal c) (written_decimal d)) hsize
  simp only [List.forall_mem_cons, Int.cast_natCast]
  constructor
  · rintro ⟨p, hp, hsame⟩
    obtain ⟨v, hv, hof⟩ := Ts.decodeStats_eq_ok.mp hp
    cases hread.symm.trans hv
    refine ⟨?_, ?_, ?_, ?_, nofun⟩
    · exact (number_of_get hof.get_uptimeS rfl).symm.trans hsame.uptimeS
    · exact (number_of_get hof.get_packetsSent rfl).symm.trans hsame.packetsSent
    · exact (number_of_get hof.get_subscribers rfl).symm.trans hsame.subscribers
    · exact (number_of_get hof.get_tracksActive rfl).symm.trans hsame.tracksActive
  · rintro ⟨ha, hb, hc, hd, -⟩
    have hnonneg (n : Nat) : Ts.Nonnegative (.fin n) := ⟨n, rfl, Nat.cast_nonneg n⟩
    have hget {v : Json.Value} {key : String} {n : Nat} (hn : Number.ofDecimal n = .fin n)
        (h : Ts.get v key = some (numberOf n).value) : Ts.get v key = some (.num (.fin n)) := by
      rw [h, numberOf, Syntax.value, hn]
    refine ⟨⟨.fin a, .fin b, .fin c, .fin d⟩, Ts.decodeStats_eq_ok.mpr ⟨_, hread, ?_⟩, ?_⟩
    · exact ⟨⟨hnonneg a, hnonneg b, hnonneg c, hnonneg d⟩, hget ha rfl, hget hb rfl, hget hc rfl,
        hget hd rfl⟩
    · exact ⟨by simp, by simp, by simp, by simp⟩

/-! The texts of the numbers as the other side reads them. -/

theorem numeric_numberText (h : Ts.Nonnegative x) :
    ∀ c ∈ Ts.numberText x, Json.numeric c = true := by
  obtain ⟨q, rfl, hq⟩ := h
  intro c hc
  have hc : c ∈ Ts.units (Number.fin q).text := hc
  rw [Ts.units, ascii, List.map_map, List.mem_map] at hc
  obtain ⟨d, hd, rfl⟩ := hc
  have hnumeric := Json.numericText_number hq d hd
  have hlt : d.toNat < 0x80 := by
    simp [Json.numeric, Json.isDigit] at hnumeric
    omega
  have hbyte : (UInt8.ofNat d.toNat).toNat = d.toNat :=
    UInt8.toNat_ofNat_of_lt' (by simp only [UInt8.size]; omega)
  exact (congrArg (fun n => Json.numeric n = true) hbyte).mpr hnumeric

/-- What the integer type takes of a numeral and gives back as the same number. -/
theorem exact_of_numeral (hn : Json.Numeral (Ts.numberText x))
    (hp : GoJson.parseInt (Ts.numberText x) = some i) (hmax : i ≤ 2 ^ 63 - 1) (h0 : 0 ≤ i)
    (hx : x = .fin i) : Exact x := by
  rw [GoJson.parseInt.eq_def] at hp
  split at hp
  · next ds hds =>
    split_ifs at hp
    -- no number that is not negative is printed with a sign
    have hi : i = 0 := by
      have := Option.some.inj hp
      omega
    rw [hx, hi] at hds
    have hzero : Ts.numberText (.fin ((0 : ℤ) : ℚ)) = Json.decimal 0 := by decide
    rw [hzero, Json.decimal_single (by decide)] at hds
    cases hds
  · split_ifs at hp with hdigits
    have hi := Option.some.inj hp
    have hdecimal := hn.decimal (List.all_eq_true.mp hdigits.2)
    refine ⟨_, ?_, ?_, hdecimal⟩
    · omega
    · exact hx.trans (by rw [← hi, Int.cast_natCast])

theorem int64_num {set : ℤ → α → α} (h : GoJson.int64 set (.num t x) a = some b) :
    ∃ i, GoJson.parseInt t = some i ∧ i ≤ 2 ^ 63 - 1 ∧ b = set i a := by
  obtain ⟨i, hi, h⟩ := Option.bind_eq_some_iff.mp h
  split_ifs at h with hrange
  cases h
  exact ⟨i, hi, hrange.2, rfl⟩

theorem small_numeric (h : Json.numeric c = true) : c < 0x80 := by
  simp [Json.numeric, Json.isDigit] at h
  omega

theorem small_object {ms : List (List Nat × List Nat)}
    (h : ∀ m ∈ ms, Name m.1 ∧ ∀ c ∈ m.2, Json.numeric c = true) : ∀ c ∈ Json.object ms, c < 0x80 := by
  intro c hc
  simp only [Json.object, List.cons_append, List.mem_cons, List.mem_append, List.not_mem_nil,
    or_false] at hc
  obtain rfl | hc | rfl := hc
  · decide
  · obtain rfl | ⟨t, ht, hc⟩ := mem_commas hc
    · decide
    · obtain ⟨m, hm, rfl⟩ := List.mem_map.mp ht
      simp only [Json.member, List.cons_append, List.mem_cons, List.mem_append] at hc
      obtain rfl | hc | rfl | rfl | hc := hc
      · decide
      · exact ((h m hm).1 c hc).2
      · decide
      · decide
      · exact small_numeric ((h m hm).2 c hc)
  · decide

/-- The fields of a decoded object of numerals. -/
theorem numerals_of_decJSON {ms : List (List Nat × List Nat)} {decode : GoJson.Decoder α}
    (hm : ∀ m ∈ ms, Name m.1 ∧ ∀ c ∈ m.2, Json.numeric c = true) (hne : ms ≠ [])
    (h : Go.decJSON (encode (Json.object ms)) decode zero = .ok a) :
    ∃ fs, List.Forall₂ Json.ReadsNumeral ms fs ∧ decode (.obj fs) zero = some a := by
  obtain ⟨-, text, v, r, htext, hread, hdec, -⟩ := Go.decJSON_eq_ok h
  have hsmall := small_object hm
  rw [jsString_encode (fun c hc => scalar_of_lt (hsmall c hc)), Unicode.utf16_of_small hsmall] at htext
  cases htext
  have hmembers : ∀ m ∈ ms, Json.NumericMember m := fun m hmem =>
    ⟨fun c hc => ((hm m hmem).1 c hc).1, (hm m hmem).2⟩
  obtain ⟨fs, rfl, hfs⟩ := Json.readFirst_numerals hmembers hne hread
  exact ⟨fs, hfs, hdec⟩

theorem stats_of_ts (h : Ts.decodeStats buf = .ok p) (hb : Ts.encodeStats p = .ok b) :
    (∃ w, Go.decodeStats b = .ok w ∧ SameStats p w) ↔
      ∀ x ∈ [p.uptimeS, p.packetsSent, p.subscribers, p.tracksActive], Exact x := by
  obtain ⟨v, -, hof⟩ := Ts.decodeStats_eq_ok.mp h
  obtain ⟨h1, h2, h3, h4⟩ := hof.toChecked
  obtain ⟨rfl, hsize⟩ := Ts.encodeJson_eq_ok hb
  change (∃ w, Go.decodeStats (encode (Json.object (statsMembers (Ts.numberText p.uptimeS)
    (Ts.numberText p.packetsSent) (Ts.numberText p.subscribers) (Ts.numberText p.tracksActive)))) =
      .ok w ∧ SameStats p w) ↔ _
  simp only [List.forall_mem_cons]
  constructor
  · rintro ⟨w, hw, hsame⟩
    obtain ⟨hdec, hchecked⟩ := Go.decodeStats_eq_ok.mp hw
    have hmembers : ∀ m ∈ statsMembers (Ts.numberText p.uptimeS) (Ts.numberText p.packetsSent)
        (Ts.numberText p.subscribers) (Ts.numberText p.tracksActive),
        Name m.1 ∧ ∀ c ∈ m.2, Json.numeric c = true := by
      simp only [statsMembers, List.forall_mem_cons]
      exact ⟨⟨by decide, numeric_numberText h1⟩, ⟨by decide, numeric_numberText h2⟩,
        ⟨by decide, numeric_numberText h3⟩, ⟨by decide, numeric_numberText h4⟩, nofun⟩
    obtain ⟨fs, hfs, hstruct⟩ := numerals_of_decJSON hmembers (by simp [statsMembers]) hdec
    simp only [statsMembers, List.forall₂_cons_left_iff, List.forall₂_nil_left_iff] at hfs
    obtain ⟨⟨_, _⟩, _, ⟨rfl, hn1, _, rfl⟩, ⟨⟨_, _⟩, _, ⟨rfl, hn2, _, rfl⟩, ⟨⟨_, _⟩, _,
      ⟨rfl, hn3, _, rfl⟩, ⟨⟨_, _⟩, _, ⟨rfl, hn4, _, rfl⟩, rfl, rfl⟩, rfl⟩, rfl⟩, rfl⟩ := hfs
    obtain ⟨_, hi1, hstruct⟩ := struct_cons_eq_some rfl hstruct
    obtain ⟨_, hi2, hstruct⟩ := struct_cons_eq_some rfl hstruct
    obtain ⟨_, hi3, hstruct⟩ := struct_cons_eq_some rfl hstruct
    obtain ⟨_, hi4, hstruct⟩ := struct_cons_eq_some rfl hstruct
    simp only at hi1 hi2 hi3 hi4
    obtain ⟨i1, hp1, hmax1, rfl⟩ := int64_num hi1
    obtain ⟨i2, hp2, hmax2, rfl⟩ := int64_num hi2
    obtain ⟨i3, hp3, hmax3, rfl⟩ := int64_num hi3
    obtain ⟨i4, hp4, hmax4, rfl⟩ := int64_num hi4
    cases hstruct
    exact ⟨exact_of_numeral hn1 hp1 hmax1 hchecked.uptimeS hsame.uptimeS,
      exact_of_numeral hn2 hp2 hmax2 hchecked.packetsSent hsame.packetsSent,
      exact_of_numeral hn3 hp3 hmax3 hchecked.subscribers hsame.subscribers,
      exact_of_numeral hn4 hp4 hmax4 hchecked.tracksActive hsame.tracksActive, nofun⟩
  · rintro ⟨⟨a, ha, hpa, hta⟩, ⟨b, hb, hpb, htb⟩, ⟨c, hc, hpc, htc⟩, ⟨d, hd, hpd, htd⟩, -⟩
    change (encode (Json.object (statsMembers (Ts.numberText p.uptimeS) (Ts.numberText p.packetsSent)
      (Ts.numberText p.subscribers) (Ts.numberText p.tracksActive)))).length ≤ 4096 at hsize
    rw [hta, htb, htc, htd] at hsize ⊢
    have hread := Go.decJSON_encode (written_stats (written_decimal a) (written_decimal b)
      (written_decimal c) (written_decimal d)) hsize (struct Go.statsFields) ⟨0, 0, 0, 0⟩
    have hstruct := struct_stats ha hb hc hd
    simp only [numberOf] at hstruct
    rw [hstruct] at hread
    refine ⟨_, Go.decodeStats_eq_ok.mpr ⟨hread, ?_⟩, ?_⟩
    · exact ⟨Int.natCast_nonneg a, Int.natCast_nonneg b, Int.natCast_nonneg c, Int.natCast_nonneg d⟩
    · exact ⟨by simp [hpa], by simp [hpb], by simp [hpc], by simp [hpd]⟩

end StreamMix.Wire
