import Mathlib.Data.UInt
import StreamMix.Lib.JsonNumber
import StreamMix.Relay.Registry
import StreamMix.Wire.Messages

/-! The text of the metrics endpoint. -/

namespace StreamMix.Relay

open Wire (ascii)
open Json (decimal decimal_append decimal_single digitsValue digitsValue_decimal head_decimal
  isDigit isDigit_decimal)

theorem toNat_div_ten (v : UInt64) : (v / 10).toNat = v.toNat / 10 := UInt64.toNat_div ..

theorem toNat_pos {v : UInt64} (h : v ≠ 0) : 0 < v.toNat :=
  Nat.pos_of_ne_zero (fun hzero => h (UInt64.toNat_inj.mp hzero))

theorem toNat_div_lt {v : UInt64} (h : v ≠ 0) : (v / 10).toNat < v.toNat := by
  rw [toNat_div_ten]
  exact Nat.div_lt_self (toNat_pos h) (by decide)

/-- The loop of `uint64DecimalBytes`.  A store below the start of the buffer panics. -/
def decimalLoop (buf : List UInt8) (pos : Nat) (v : UInt64) : Option (List UInt8 × Nat) :=
  if v = 0 then some (buf, pos)
  else
    match pos with
    | 0 => none
    | pos + 1 => decimalLoop (buf.set pos (0x30 + v % 10).toUInt8) pos (v / 10)
termination_by v.toNat
decreasing_by exact toNat_div_lt (by assumption)

def uint64DecimalBytes (v : UInt64) : Option (List UInt8) :=
  if v = 0 then some [0x30]
  else (decimalLoop (List.replicate 20 0) 20 v).map (fun (buf, pos) => buf.drop pos)

theorem toNat_digit (v : UInt64) : (0x30 + v % 10).toUInt8.toNat = 0x30 + v.toNat % 10 := by
  simp only [UInt64.toNat_toUInt8, UInt64.toNat_add, UInt64.toNat_mod, UInt64.reduceToNat]
  omega

theorem length_decimal_le (v : UInt64) : (decimal v.toNat).length ≤ 20 := by
  rw [decimal, List.length_map, Nat.length_toDigits_le_iff (by decide) (by decide)]
  have hlt := v.toNat_lt
  omega

theorem drop_set_self (buf : List UInt8) (c : UInt8) (h : pos < buf.length) :
    (buf.set pos c).drop pos = c :: buf.drop (pos + 1) := by
  rw [List.drop_eq_getElem_cons (by rwa [List.length_set]), List.getElem_set_self,
    List.drop_set_of_lt (Nat.lt_succ_self pos)]

theorem decimalLoop_zero (buf : List UInt8) (pos : Nat) :
    decimalLoop buf pos 0 = some (buf, pos) := by
  rw [decimalLoop.eq_def, if_pos rfl]

/-- A turn of the loop writes the last digit of the value. -/
theorem decimalLoop_succ (buf : List UInt8) (pos : Nat) (hv : v ≠ 0) :
    decimalLoop buf (pos + 1) v =
      decimalLoop (buf.set pos (0x30 + v % 10).toUInt8) pos (v / 10) := by
  rw [decimalLoop, if_neg hv]

/-- What the loop leaves from its position on is the numeral, before what was there. -/
theorem decimalLoop_eq (n : Nat) (v : UInt64) (hv : v.toNat = n) (hpos : 0 < n)
    (buf : List UInt8) (pos : Nat) (hlen : pos + (decimal n).length ≤ buf.length) :
    ∃ buf', decimalLoop buf (pos + (decimal n).length) v = some (buf', pos) ∧
      (buf'.drop pos).map UInt8.toNat =
        decimal n ++ (buf.drop (pos + (decimal n).length)).map UInt8.toNat := by
  have hne : v ≠ 0 := by
    rintro rfl
    exact absurd hv (Nat.ne_of_lt hpos)
  induction n using Nat.base_induction 10 (by decide) generalizing v buf with
  | single d hd =>
    have hrest : v / 10 = 0 := by
      rw [← UInt64.toNat_inj, toNat_div_ten, hv]
      exact Nat.div_eq_of_lt hd
    rw [decimal_single hd, List.length_singleton] at hlen ⊢
    refine ⟨buf.set pos (0x30 + v % 10).toUInt8, ?_, ?_⟩
    · rw [decimalLoop_succ buf pos hne, hrest, decimalLoop_zero]
    · rw [drop_set_self buf _ hlen, List.map_cons, toNat_digit, hv, Nat.mod_eq_of_lt hd]
      rfl
  | digit n d hd hn ih =>
    have hrest : (v / 10).toNat = n := by
      rw [toNat_div_ten, hv]
      omega
    have hlast : v.toNat % 10 = d := by omega
    rw [decimal_append hn hd, List.length_append, List.length_singleton, ← Nat.add_assoc] at hlen ⊢
    rw [decimalLoop_succ buf _ hne]
    obtain ⟨buf', hloop, htext⟩ := ih (v / 10) hrest hn
      (buf.set (pos + (decimal n).length) (0x30 + v % 10).toUInt8)
      (by rw [List.length_set]; omega) (by rw [← UInt64.toNat_inj.ne, hrest]; exact hn.ne')
    refine ⟨buf', hloop, ?_⟩
    rw [htext, drop_set_self buf _ hlen, List.map_cons, toNat_digit, hlast, List.append_assoc]
    rfl

/-- For every value the loop stays in the buffer, and it ends with the numeral of the value. -/
theorem uint64DecimalBytes_eq (v : UInt64) :
    ∃ bs, uint64DecimalBytes v = some bs ∧ bs.map UInt8.toNat = decimal v.toNat := by
  rw [uint64DecimalBytes]
  split_ifs with hv
  · exact ⟨_, rfl, by rw [hv]; rfl⟩
  · have hlen := length_decimal_le v
    obtain ⟨buf, hloop, htext⟩ := decimalLoop_eq v.toNat v rfl (toNat_pos hv) (List.replicate 20 0)
      (20 - (decimal v.toNat).length) (by rw [List.length_replicate]; omega)
    rw [Nat.sub_add_cancel hlen] at hloop htext
    refine ⟨_, by rw [hloop]; rfl, ?_⟩
    rw [htext, List.drop_of_length_le (by rw [List.length_replicate])]
    exact List.append_nil _

/-- For every value: no store outside of the buffer, only digits, no leading zero but for zero
itself, and the value when it is read back. -/
theorem uint64DecimalBytes_reads (v : UInt64) : ∃ b bs, uint64DecimalBytes v = some (b :: bs) ∧
    (∀ c ∈ b :: bs, isDigit c.toNat = true) ∧ (b = 0x30 → bs = [] ∧ v = 0) ∧
    digitsValue ((b :: bs).map UInt8.toNat) = v.toNat := by
  obtain ⟨text, hbytes, htext⟩ := uint64DecimalBytes_eq v
  obtain ⟨d, ds, hdecimal, hzero⟩ := head_decimal v.toNat
  cases text with
  | nil => cases htext.trans hdecimal
  | cons b bs =>
    have hvalue : digitsValue ((b :: bs).map UInt8.toNat) = v.toNat := by
      rw [htext, digitsValue_decimal]
    refine ⟨b, bs, hbytes, ?_, ?_, hvalue⟩
    · intro c hc
      apply isDigit_decimal v.toNat
      rw [← htext]
      exact List.mem_map_of_mem hc
    · rintro rfl
      obtain ⟨hd, hds⟩ := List.cons.inj (htext.trans hdecimal)
      have hnil : bs = [] := List.map_eq_nil_iff.mp (hds.trans (hzero hd.symm))
      refine ⟨hnil, ?_⟩
      rw [hnil] at hvalue
      exact UInt64.toNat_inj.mp hvalue.symm

/-- The counters of the server, and the seconds since its start. -/
structure Counters where
  packetsRelayed : UInt64
  bytesRelayed : UInt64
  authFailures : UInt64
  authBlocked : UInt64
  uptime : UInt64

def metrics (snapshot : List Stats) (c : Counters) : List (String × UInt64) :=
  [("relay_active_channels", .ofNat snapshot.length),
    ("relay_active_subscribers", .ofNat (snapshot.map Stats.subscribers).sum),
    ("relay_packets_relayed_total", c.packetsRelayed),
    ("relay_bytes_relayed_total", c.bytesRelayed),
    ("relay_publisher_auth_failures_total", c.authFailures),
    ("relay_publisher_auth_blocked_total", c.authBlocked),
    ("relay_uptime_seconds", c.uptime)]

def writeMetric (name : String) (value : UInt64) : Option (List UInt8) :=
  (uint64DecimalBytes value).map (fun digits => ascii name ++ ascii " " ++ digits ++ ascii "\n")

/-- The writes to `w`, in one piece. -/
def writeMetrics (snapshot : List Stats) (c : Counters) : Option (List UInt8) :=
  ((metrics snapshot c).mapM (fun m => writeMetric m.1 m.2)).map
    (fun lines => ascii "# StreamMix relay metrics\n" ++ lines.flatten)

/-- A line of the text: the name, a blank, the numeral of the value. -/
def metricLine (name : String) (value : UInt64) : List Nat :=
  (ascii name).map UInt8.toNat ++ 0x20 :: decimal value.toNat ++ [0x0a]

theorem writeMetric_eq (name : String) (value : UInt64) :
    ∃ line, writeMetric name value = some line ∧ line.map UInt8.toNat = metricLine name value := by
  obtain ⟨digits, hdigits, htext⟩ := uint64DecimalBytes_eq value
  have hblank : (ascii " ").map UInt8.toNat = [0x20] := by decide
  have hnewline : (ascii "\n").map UInt8.toNat = [0x0a] := by decide
  refine ⟨_, by rw [writeMetric, hdigits]; rfl, ?_⟩
  simp only [List.map_append, htext, hblank, hnewline, metricLine, List.append_assoc,
    List.cons_append, List.nil_append]

/-- Whatever the counters are, the endpoint writes a line for each metric. -/
theorem writeMetrics_eq (snapshot : List Stats) (c : Counters) :
    ∃ text, writeMetrics snapshot c = some text ∧
      text.map UInt8.toNat = (ascii "# StreamMix relay metrics\n").map UInt8.toNat ++
        (metrics snapshot c).flatMap (fun m => metricLine m.1 m.2) := by
  have hlines (ms : List (String × UInt64)) :
      ∃ lines, ms.mapM (fun m => writeMetric m.1 m.2) = some lines ∧
        lines.flatten.map UInt8.toNat = ms.flatMap (fun m => metricLine m.1 m.2) := by
    induction ms with
    | nil => exact ⟨[], rfl, rfl⟩
    | cons m ms ih =>
      obtain ⟨lines, hmap, hflat⟩ := ih
      obtain ⟨line, hline, htext⟩ := writeMetric_eq m.1 m.2
      refine ⟨line :: lines, by simp [hline, hmap], ?_⟩
      rw [List.flatten_cons, List.map_append, htext, hflat, List.flatMap_cons]
  obtain ⟨lines, hmap, hflat⟩ := hlines (metrics snapshot c)
  refine ⟨_, by rw [writeMetrics, hmap]; rfl, ?_⟩
  rw [List.map_append, hflat]

end StreamMix.Relay
