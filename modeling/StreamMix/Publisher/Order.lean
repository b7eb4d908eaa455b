import StreamMix.Publisher.Announce
import StreamMix.Publisher.WsClient

/-! The client carries the packets of the capture threads in the order in which they were made.
What it drops on the way, at full queues, between connections and at failed writes, leaves the
rest in place. -/

namespace StreamMix.Publisher

open Wire
open Js (Number)

/-- The pipelines: the SEQ of each, and the packets they have handed to `Enqueue` so far. -/
structure Pipelines where
  seq : Nat → UInt32
  made : List Packet

namespace Pipelines

def start : Pipelines := ⟨fun _ => 0, []⟩

def frame (cfg : Config) (p : Pipelines) : ClientAct → Pipelines
  | .capture i now encoded =>
    match cfg.tracks[i]? with
    | some t =>
      let seq := p.seq i + 1
      let bytes := encodeFrameOrLog (audioFrame t seq now encoded)
      { seq := Function.update p.seq i seq
        made := if bytes.isEmpty then p.made else p.made ++ [⟨.capture, bytes⟩] }
    | none => p
  | _ => p

end Pipelines

/-- The packets of the capture threads among others. -/
def captures (ps : List Packet) : List Packet := ps.filter (fun p => p.origin = .capture)

theorem captures_append (ps qs : List Packet) :
    captures (ps ++ qs) = captures ps ++ captures qs := List.filter_append ..

theorem captures_of_ne (h : p.origin ≠ .capture) : captures [p] = [] := by
  simp [captures, h]

def Service.inHand : Service → List Packet
  | .write p => [p]
  | _ => []

namespace Client

variable {c d : Client} {cfg : Config} {p : Pipelines}

/-- Everything that was written, connection after connection. -/
def sentOn (c : Client) : List Packet := (List.range (c.conn + 1)).flatMap c.written

def carried (c : Client) : List Packet := c.sentOn ++ c.service.inHand ++ c.queue

/-- What the client says of a connection is true of the thread that serves it. -/
structure Online (c : Client) : Prop where
  serving : c.service ≠ .loop → c.connected = true
  dialing : c.connecting = true → c.connected = false
  unused : ∀ n, c.conn < n → c.written n = []

structure Conveys (p : Pipelines) (c : Client) : Prop extends Online c where
  seq : c.seq = p.seq
  order : (captures c.carried).Sublist p.made

theorem conveys_start : Conveys .start start where
  serving h := absurd rfl h
  dialing := nofun
  unused _ _ := rfl
  seq := rfl
  order := List.Sublist.refl _

/-- Steps that write nothing and keep at most what is there. -/
theorem Conveys.keep (hc : Conveys p c) (ho : Online d) (hs : d.seq = c.seq)
    (hw : d.sentOn = c.sentOn) (hq : (d.service.inHand ++ d.queue).Sublist
      (c.service.inHand ++ c.queue)) : Conveys p d where
  toOnline := ho
  seq := hs.trans hc.seq
  order := by
    refine List.Sublist.trans ?_ hc.order
    rw [carried, carried, hw, List.append_assoc, List.append_assoc]
    exact (List.Sublist.append (List.Sublist.refl _) hq).filter _

theorem sentOn_succ (hu : ∀ n, c.conn < n → c.written n = []) :
    (List.range (c.conn + 1 + 1)).flatMap c.written = c.sentOn := by
  rw [List.range_succ, List.flatMap_append, List.flatMap_singleton, hu _ (Nat.lt_succ_self _),
    List.append_nil, sentOn]

theorem sentOn_write (q : Packet) :
    (List.range (c.conn + 1)).flatMap
      (Function.update c.written c.conn (c.written c.conn ++ [q])) = c.sentOn ++ [q] := by
  rw [sentOn, List.range_succ, List.flatMap_append, List.flatMap_append, List.flatMap_singleton,
    List.flatMap_singleton, Function.update_self, List.append_assoc]
  congr 1
  apply List.flatMap_congr
  intro n hn
  rw [Function.update_of_ne (Nat.ne_of_lt (List.mem_range.mp hn))]

/-- An `Enqueue` appends, after dropping from the front. -/
theorem enqueue_spec (c : Client) (q : Packet) : ∃ kept, kept.Sublist c.queue ∧
    (c.enqueue q).queue = kept ++ [q] ∧ (c.enqueue q).service = c.service ∧
    (c.enqueue q).connected = c.connected ∧ (c.enqueue q).connecting = c.connecting ∧
    (c.enqueue q).seq = c.seq ∧ (c.enqueue q).conn = c.conn ∧
    (c.enqueue q).written = c.written := by
  obtain ⟨-, he⟩ | ⟨a, qs, -, hq, he⟩ := c.enqueue_cases q
  · rw [he]
    exact ⟨c.queue, List.Sublist.refl _, rfl, rfl, rfl, rfl, rfl, rfl, rfl⟩
  · rw [he]
    exact ⟨qs, hq ▸ List.sublist_cons_self .., rfl, rfl, rfl, rfl, rfl, rfl, rfl⟩

theorem Online.enqueue (ho : Online c) (q : Packet) : Online (c.enqueue q) := by
  obtain ⟨_, _, -, hservice, hconn, hdial, -, hn, hw⟩ := c.enqueue_spec q
  refine ⟨?_, ?_, ?_⟩
  · rw [hservice, hconn]
    exact ho.serving
  · rw [hdial, hconn]
    exact ho.dialing
  · rw [hn, hw]
    exact ho.unused

/-- The callback's packets are not the capture threads'. -/
theorem Conveys.announce (hc : Conveys p c) {q : Packet} (hq : q.origin ≠ .capture)
    (hs : c.service.inHand = []) (hconn : c.connected = true) (s : Service) (hin : s.inHand = []) :
    Conveys p { c.enqueue q with service := s } := by
  obtain ⟨kept, hkept, hqueue, -, hconnected, hdial, hseq, hn, hw⟩ := c.enqueue_spec q
  have ho := hc.toOnline.enqueue q
  refine ⟨⟨?_, ho.dialing, ho.unused⟩, hseq.trans hc.seq, ?_⟩
  · intro _
    exact hconnected.trans hconn
  · refine List.Sublist.trans ?_ hc.order
    simp only [carried, sentOn, hqueue, hn, hw, hin, hs, List.append_nil, captures_append,
      captures_of_ne hq]
    exact List.Sublist.append (List.Sublist.refl _) (hkept.filter _)

theorem Conveys.capture (hc : Conveys p c) (ht : cfg.tracks[i]? = some t) (now : UInt64)
    (encoded : Bytes) :
    Conveys (p.frame cfg (.capture i now encoded)) (c.capture i t now encoded) := by
  simp only [Pipelines.frame, ht, Client.capture, hc.seq]
  split
  · exact ⟨⟨hc.serving, hc.dialing, hc.unused⟩, rfl, hc.order⟩
  · next hbytes =>
    generalize encodeFrameOrLog (audioFrame t (p.seq i + 1) now encoded) = bytes
    obtain ⟨kept, hkept, hqueue, hservice, -, -, hseq, hn, hw⟩ :=
      Client.enqueue_spec { c with seq := Function.update p.seq i (p.seq i + 1) }
        ⟨.capture, bytes⟩
    have ho : Online { c with seq := Function.update p.seq i (p.seq i + 1) } :=
      ⟨hc.serving, hc.dialing, hc.unused⟩
    refine ⟨ho.enqueue _, hseq, ?_⟩
    rw [carried, sentOn, hqueue, hservice, hn, hw, ← List.append_assoc, captures_append]
    refine List.Sublist.append (List.Sublist.trans ?_ hc.order) (List.Sublist.refl _)
    exact (List.Sublist.append (List.Sublist.refl _) hkept).filter _

theorem Conveys.step (hc : Conveys p c) (he : c.step cfg a = some d) :
    Conveys (p.frame cfg a) d := by
  cases a with
  | tryConnect ok =>
    simp only [Client.step] at he
    split at he <;> cases he
    next h =>
    refine hc.keep ⟨hc.serving, fun _ => h.2.1, ?_⟩ rfl (sentOn_succ hc.unused)
      (List.Sublist.refl _)
    exact fun n hn => hc.unused n (Nat.lt_trans (Nat.lt_succ_self _) hn)
  | connectionError =>
    simp only [Client.step] at he
    split at he <;> cases he
    exact hc.keep ⟨fun h => absurd rfl h, fun _ => rfl, hc.unused⟩ rfl rfl
      (List.sublist_append_right ..)
  | established =>
    simp only [Client.step] at he
    split at he <;> cases he
    exact hc.keep ⟨fun _ => rfl, by simp, hc.unused⟩ rfl rfl (List.sublist_append_right ..)
  | clear =>
    simp only [Client.step] at he
    split at he <;> cases he
    next h =>
    have hconn := hc.serving (by simp [h])
    exact hc.keep ⟨fun _ => hconn, hc.dialing, hc.unused⟩ rfl rfl (List.nil_sublist _)
  | hello now =>
    simp only [Client.step] at he
    split at he <;> cases he
    next h =>
    exact hc.announce (by simp) (by rw [h]; rfl) (hc.serving (by simp [h])) .trackList rfl
  | trackList now =>
    simp only [Client.step] at he
    split at he <;> cases he
    next h =>
    exact hc.announce (by simp) (by rw [h]; rfl) (hc.serving (by simp [h])) .loop rfl
  | capture i now encoded =>
    simp only [Client.step] at he
    split at he
    · next t ht =>
      split at he <;> cases he
      exact hc.capture ht now encoded
    · cases he
  | writeable =>
    simp only [Client.step] at he
    split at he
    · next h =>
      split at he <;> cases he
      · exact hc
      · next q queue hq =>
        refine hc.keep ⟨fun _ => h.2, hc.dialing, hc.unused⟩ rfl rfl ?_
        rw [h.1, hq]
        exact List.Sublist.refl _
    · cases he
  | write ok =>
    simp only [Client.step] at he
    split at he
    · next q h =>
      have hconn := hc.serving (by simp [h])
      split at he <;> cases he
      · refine ⟨⟨fun hs => absurd rfl hs, hc.dialing, ?_⟩, hc.seq, ?_⟩
        · intro n hn
          exact (Function.update_of_ne (Nat.ne_of_gt hn) ..).trans (hc.unused n hn)
        · have horder := hc.order
          rw [carried, h] at horder
          rw [carried, sentOn, sentOn_write]
          simpa only [Service.inHand, List.append_nil, Pipelines.frame] using horder
      · exact hc.keep ⟨fun _ => hconn, hc.dialing, hc.unused⟩ rfl rfl
          (List.sublist_append_right ..)
    · cases he
  | closed =>
    simp only [Client.step] at he
    split at he <;> cases he
    exact hc.keep ⟨fun h => absurd rfl h, fun _ => rfl, hc.unused⟩ rfl rfl
      (List.sublist_append_right ..)

/-- A connection that has been established. -/
def Used (c : Client) (r : Nat) : Prop := c.written r ≠ [] ∨ r = c.conn ∧ c.connected = true

theorem Used.congr (hu : Used d r) (hw : d.written = c.written) (hn : d.conn = c.conn)
    (hc : d.connected = true → c.connected = true) : Used c r := by
  rw [Used, hw, hn] at hu
  exact hu.imp_right (fun h => ⟨h.1, hc h.2⟩)

theorem Online.used_step (ho : Online c) (he : c.step cfg a = some d) (hu : Used d r) :
    Used c r ∨ a = .established ∧ r = c.conn := by
  cases a with
  | tryConnect ok =>
    simp only [Client.step] at he
    split at he <;> cases he
    next h =>
    refine .inl (.inl (hu.elim id ?_))
    rintro ⟨-, hc⟩
    rw [h.2.1] at hc
    cases hc
  | established =>
    simp only [Client.step] at he
    split at he <;> cases he
    exact hu.imp .inl (fun h => ⟨rfl, h.1⟩)
  | write ok =>
    simp only [Client.step] at he
    split at he
    · next q h =>
      split at he <;> cases he
      · by_cases hr : r = c.conn
        · exact .inl (.inr ⟨hr, ho.serving (by simp [h])⟩)
        · have hw : Function.update c.written c.conn (c.written c.conn ++ [q]) r = c.written r :=
            Function.update_of_ne hr ..
          exact .inl (.inl (hw ▸ hu.resolve_right (fun h => hr h.1)))
      · exact .inl (hu.congr rfl rfl id)
    · cases he
  | hello | trackList =>
    simp only [Client.step] at he
    split at he <;> cases he
    obtain ⟨_, -, -, -, hconn, -, -, hn, hw⟩ := c.enqueue_spec _
    exact .inl (hu.congr hw hn (fun h => hconn ▸ h))
  | capture i now encoded =>
    simp only [Client.step] at he
    split at he
    · split at he <;> cases he
      simp only [Client.capture] at hu
      split at hu
      · exact .inl (hu.congr rfl rfl id)
      · obtain ⟨_, -, -, -, hconn, -, -, hn, hw⟩ := Client.enqueue_spec _ _
        exact .inl (hu.congr hw hn (fun h => hconn ▸ h))
    · cases he
  | writeable =>
    simp only [Client.step] at he
    split at he
    · split at he <;> cases he <;> exact .inl (hu.congr rfl rfl id)
    · cases he
  | clear =>
    simp only [Client.step] at he
    split at he <;> cases he
    exact .inl (hu.congr rfl rfl id)
  | connectionError | closed =>
    simp only [Client.step] at he
    split at he <;> cases he
    exact .inl (hu.congr rfl rfl (fun h => by cases h))

end Client

/-- A packet whose frame has a smaller SEQ than the other's, if they are of one track. -/
def Numbered (p q : Packet) : Prop :=
  ∀ f g, Ts.decodeFrame p.bytes = .ok f → Ts.decodeFrame q.bytes = .ok g → f.track = g.track →
    f.seq.lt g.seq = true

/-- The frame `n` of pipeline `i`. -/
def FrameOf (cfg : Config) (i : Nat) (n : UInt32) (p : Packet) : Prop :=
  ∃ t now encoded, cfg.tracks[i]? = some t ∧
    Cpp.encodeFrame (audioFrame t n now encoded) = .ok p.bytes

/-- What is not logged is encoded. -/
theorem encodeFrame_of_nonempty (h : ¬ (encodeFrameOrLog f).isEmpty) :
    Cpp.encodeFrame f = .ok (encodeFrameOrLog f) := by
  simp only [encodeFrameOrLog] at h ⊢
  split
  · assumption
  · next heq =>
    rw [heq] at h
    exact absurd rfl h

/-- Ids tell the tracks apart. -/
theorem index_of_id {cfg : Config} {t u : TrackSpec} {i j : Nat} (hc : cfg.Checked)
    (hlen : cfg.tracks.length ≤ 8) (ht : cfg.tracks[i]? = some t) (hu : cfg.tracks[j]? = some u)
    (h : t.id = u.id) : i = j := by
  have hget : ∀ k v, cfg.tracks[k]? = some v → v.id.toNat = 1 + k := by
    intro k v hv
    have hid := congrArg (fun l => l[k]?) (id_of_checked hc hlen)
    obtain ⟨hk, -⟩ := List.getElem?_eq_some_iff.mp hv
    rw [List.getElem?_map, hv, List.getElem?_range' hk, Option.map_some, Option.some.injEq,
      Nat.one_mul] at hid
    exact hid
  have hi := hget i t ht
  have hj := hget j u hu
  rw [h] at hi
  omega

namespace Pipelines

variable {cfg : Config} {p : Pipelines}

/-- The pipelines after at most `n` frames. -/
structure Counts (cfg : Config) (n : Nat) (p : Pipelines) : Prop where
  seq : ∀ i, (p.seq i).toNat ≤ n
  made : ∀ q ∈ p.made, ∃ i m, FrameOf cfg i m q ∧ m ≤ p.seq i
  numbered : p.made.Pairwise Numbered

theorem counts_start (cfg : Config) : Counts cfg 0 start where
  seq _ := Nat.le_refl 0
  made _ := nofun
  numbered := .nil

theorem Counts.mono (hp : Counts cfg n p) (h : n ≤ m) : Counts cfg m p :=
  ⟨fun i => Nat.le_trans (hp.seq i) h, hp.made, hp.numbered⟩

/-- A frame with the next number of its pipeline comes after all that are made. -/
theorem Counts.numbered_next (hc : cfg.Checked) (hlen : cfg.tracks.length ≤ 8)
    (hp : Counts cfg n p) (hnew : FrameOf cfg i m q) (hm : p.seq i < m) :
    ∀ w ∈ p.made, Numbered w q := by
  obtain ⟨t, now, encoded, ht, henc⟩ := hnew
  intro w hw f g hf hg htrack
  obtain ⟨j, k, ⟨u, now', encoded', hu, henc'⟩, hk⟩ := hp.made w hw
  rw [Ts.decodeFrame_of_encode henc'] at hf
  rw [Ts.decodeFrame_of_encode henc] at hg
  cases hf
  cases hg
  have hid : u.id = t.id := by
    have hnat : u.id.toNat = t.id.toNat :=
      Nat.cast_injective (R := ℚ) (Number.fin_injective htrack)
    exact UInt8.toNat_inj.mp hnat
  obtain rfl := index_of_id hc hlen hu ht hid
  have hlt : k.toNat < m.toNat :=
    Nat.lt_of_le_of_lt (UInt32.le_iff_toNat_le.mp hk) (UInt32.lt_iff_toNat_lt.mp hm)
  have hcast : ((k.toNat : ℚ)) < (m.toNat : ℚ) := Nat.cast_lt.mpr hlt
  exact decide_eq_true hcast

/-- A pipeline counts on as long as its SEQ does not wrap. -/
theorem Counts.frame (hc : cfg.Checked) (hlen : cfg.tracks.length ≤ 8) (hp : Counts cfg n p)
    (hn : n + 1 < 2 ^ 32) (a : ClientAct) : Counts cfg (n + 1) (p.frame cfg a) := by
  cases a with
  | capture i now encoded =>
    simp only [Pipelines.frame]
    split
    · next t ht =>
      have hsucc : (p.seq i + 1).toNat = (p.seq i).toNat + 1 := by
        have := hp.seq i
        rw [UInt32.toNat_add]
        exact Nat.mod_eq_of_lt (by simp; omega)
      have hlt : p.seq i < p.seq i + 1 := UInt32.lt_iff_toNat_lt.mpr (by omega)
      have hgrow : ∀ j, p.seq j ≤ Function.update p.seq i (p.seq i + 1) j := by
        intro j
        rw [Function.update_apply]
        split_ifs with hj
        · rw [hj]
          exact UInt32.le_of_lt hlt
        · exact UInt32.le_refl _
      have hseq : ∀ j, (Function.update p.seq i (p.seq i + 1) j).toNat ≤ n + 1 := by
        intro j
        have := hp.seq i
        have := hp.seq j
        rw [Function.update_apply]
        split_ifs <;> omega
      have hmade : ∀ q ∈ p.made, ∃ j m, FrameOf cfg j m q ∧
          m ≤ Function.update p.seq i (p.seq i + 1) j := by
        intro q hq
        obtain ⟨j, m, hframe, hm⟩ := hp.made q hq
        exact ⟨j, m, hframe, UInt32.le_trans hm (hgrow j)⟩
      split
      · exact ⟨hseq, hmade, hp.numbered⟩
      · next hbytes =>
        have hnew : FrameOf cfg i (p.seq i + 1)
            ⟨.capture, encodeFrameOrLog (audioFrame t (p.seq i + 1) now encoded)⟩ :=
          ⟨t, now, encoded, ht, encodeFrame_of_nonempty hbytes⟩
        refine ⟨hseq, ?_, ?_⟩
        · intro q hq
          obtain hq | hq := List.mem_append.mp hq
          · exact hmade q hq
          · obtain rfl := List.mem_singleton.mp hq
            have hself : Function.update p.seq i (p.seq i + 1) i = p.seq i + 1 :=
              Function.update_self ..
            exact ⟨i, _, hnew, UInt32.le_of_eq hself.symm⟩
        · refine List.pairwise_append.mpr ⟨hp.numbered, List.pairwise_singleton .., ?_⟩
          intro w hw q hq
          obtain rfl := List.mem_singleton.mp hq
          exact hp.numbered_next hc hlen hnew hlt w hw
    · exact hp.mono (Nat.le_succ n)
  | tryConnect | connectionError | established | clear | hello | trackList | writeable | write
  | closed => exact hp.mono (Nat.le_succ n)

end Pipelines

end StreamMix.Publisher
