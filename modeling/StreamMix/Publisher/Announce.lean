import StreamMix.Publisher.Cli
import StreamMix.Wire.SlugRule

namespace StreamMix.Publisher

open Wire
open Unicode (Ascii)
open Json (Value quote isPlain skip parseValue parseElements parseMembers)

/-! What `ParseArgs` promises of the tracks it accepts. -/

structure TrackSpec.Checked (t : TrackSpec) : Prop where
  category : t.category = ascii customCategory ∨ Cpp.isPresetCategory t.category = true
  slug : Cpp.isValidSlug t.slug = true

theorem isValidSlug_preset (h : Cpp.isPresetCategory s = true) : Cpp.isValidSlug s = true := by
  have hall : ∀ c ∈ presetCategories, Cpp.isValidSlug (ascii c) = true := by decide
  obtain ⟨c, hc, hs⟩ := List.any_eq_true.mp h
  rw [← eq_of_beq hs]
  exact hall c hc

theorem checked_parseTrackArg (h : parseTrackArg arg = some spec) (name : UInt8) :
    (spec name).id = name ∧ (spec name).Checked := by
  simp only [parseTrackArg] at h
  split at h
  · cases h
  · next category rest _ =>
    split_ifs at h with hrest hcat hcustom
    · split at h
      · cases h
      · split_ifs at h with hempty hslug
        cases h
        refine ⟨rfl, .inl hcustom, ?_⟩
        simpa using (not_or.mp (mt Bool.or_eq_true_iff.mpr hslug)).2
    · cases h
      have hpreset : Cpp.isPresetCategory category = true := by
        by_contra hp
        exact hcat ⟨hcustom, by simpa using hp⟩
      exact ⟨rfl, .inr hpreset, isValidSlug_preset hpreset⟩

structure Config.Checked (cfg : Config) : Prop where
  ids : cfg.tracks.map TrackSpec.id = (List.range' 1 cfg.tracks.length).map UInt8.ofNat
  tracks : ∀ t ∈ cfg.tracks, t.Checked

theorem checked_addTrack {cfg : Config} (hc : cfg.Checked) (h : parseTrackArg arg = some spec) :
    (addTrack cfg spec).Checked := by
  refine ⟨?_, ?_⟩
  · simp only [addTrack, List.map_append, List.map_cons, List.map_nil,
      (checked_parseTrackArg h _).1, List.length_append, List.length_cons, List.length_nil,
      List.range'_1_concat, hc.ids, Nat.add_comm 1]
  · intro t ht
    obtain ht | ht := List.mem_append.mp ht
    · exact hc.tracks t ht
    · rw [List.mem_singleton.mp ht]
      exact (checked_parseTrackArg h _).2

theorem checked_parseFlags {cfg : Config} (hc : cfg.Checked)
    (h : parseFlags cfg args = .ok cfg') : cfg'.Checked := by
  fun_induction parseFlags cfg args with
  | case1 cfg =>
    cases h
    exact hc
  | case5 cfg v args ih => exact ih ⟨hc.ids, hc.tracks⟩ h
  | case6 cfg v args _ ih => exact ih ⟨hc.ids, hc.tracks⟩ h
  | case7 cfg v args _ _ ih => exact ih ⟨hc.ids, hc.tracks⟩ h
  | case9 cfg v args _ _ _ _ ih => exact ih ⟨hc.ids, hc.tracks⟩ h
  | case11 cfg v args spec hspec _ _ _ _ ih => exact ih (checked_addTrack hc hspec) h
  | _ => cases h

theorem checked_parseArgs (h : parseArgs args = .ok cfg) :
    cfg.Checked ∧ 1 ≤ cfg.tracks.length ∧ cfg.tracks.length ≤ 8 := by
  simp only [parseArgs] at h
  cases hflags : parseFlags .default args with
  | error e =>
    rw [hflags] at h
    cases h
  | ok cfg' =>
    rw [hflags] at h
    change (if _ then _ else _) = _ at h
    split_ifs at h with _ _ _ hempty hmany
    cases h
    have hpos : cfg.tracks ≠ [] := fun hnil => hempty (by rw [hnil]; rfl)
    have hc : Config.default.Checked := ⟨rfl, nofun⟩
    exact ⟨checked_parseFlags hc hflags, List.length_pos_of_ne_nil hpos, Nat.le_of_not_lt hmany⟩

/-- The ids are 1, 2 and so on. -/
theorem id_of_checked {cfg : Config} (hc : cfg.Checked) (hlen : cfg.tracks.length ≤ 8) :
    cfg.tracks.map (fun t => t.id.toNat) = List.range' 1 cfg.tracks.length := by
  have hmap := congrArg (List.map UInt8.toNat) hc.ids
  rw [List.map_map, List.map_map] at hmap
  refine hmap.trans ?_
  conv_rhs => rw [← List.map_id (List.range' 1 cfg.tracks.length)]
  refine List.map_congr_left (fun n hn => ?_)
  have := List.mem_range'_1.mp hn
  exact UInt8.toNat_ofNat_of_lt' (by simp only [UInt8.size]; omega)

theorem isValidSlug_units (h : Cpp.isValidSlug s = true) :
    Ts.isValidSlug (s.map UInt8.toNat) = true := by
  rw [Cpp.isValidSlug_iff] at h
  rwa [Ts.isValidSlug_iff, List.length_map, mem_slugUnits_toNat]

/-- ASCII that may stand in a JSON string as it is. -/
def Safe (s : Bytes) : Prop := ∀ c ∈ s, c < 0x80 ∧ isPlain c.toNat = true

theorem Safe.ascii (h : Safe s) : Ascii s := fun c hc => (h c hc).1

theorem Safe.plain (h : Safe s) : ∀ c ∈ s.map UInt8.toNat, isPlain c = true := by
  intro c hc
  obtain ⟨b, hb, rfl⟩ := List.mem_map.mp hc
  exact (h b hb).2

theorem safe_of_scanSlug {s : Bytes} (h : Cpp.scanSlug prev s = true) : Safe s := by
  have hchar : ∀ c : UInt8, Cpp.isSlugChar c = true → c < 0x80 ∧ isPlain c.toNat = true := by
    intro c hc
    simp only [Cpp.isSlugChar, Bool.or_eq_true, Bool.and_eq_true, decide_eq_true_eq,
      UInt8.le_iff_toNat_le, UInt8.reduceToNat] at hc
    simp only [isPlain, quote, Json.backslash, UInt8.lt_iff_toNat_lt, UInt8.reduceToNat,
      Bool.and_eq_true, bne_iff_ne, decide_eq_true_eq]
    omega
  induction s generalizing prev with
  | nil =>
    intro c hc
    cases hc
  | cons c s ih =>
    rw [Cpp.scanSlug] at h
    intro d hd
    split at h
    · next hdash =>
      obtain rfl | hd := List.mem_cons.mp hd
      · rw [hdash]
        decide
      · exact ih (Bool.and_eq_true_iff.mp h).2 d hd
    · obtain ⟨hc, hs⟩ := Bool.and_eq_true_iff.mp h
      obtain rfl | hd := List.mem_cons.mp hd
      · exact hchar d hc
      · exact ih hs d hd

theorem TrackSpec.Checked.safe_slug (ht : TrackSpec.Checked t) :
    Safe t.slug ∧ t.slug.length ≤ 64 := by
  have h := ht.slug
  simp only [Cpp.isValidSlug] at h
  split_ifs at h with hlen
  simp only [Bool.or_eq_true, decide_eq_true_eq, not_or] at hlen
  exact ⟨safe_of_scanSlug h, Nat.le_of_not_lt hlen.2⟩

theorem TrackSpec.Checked.category_eq (ht : TrackSpec.Checked t) :
    ∃ c ∈ customCategory :: presetCategories, t.category = Wire.ascii c := by
  obtain h | h := ht.category
  · exact ⟨_, List.mem_cons_self, h⟩
  · obtain ⟨c, hc, heq⟩ := List.any_eq_true.mp h
    exact ⟨c, List.mem_cons_of_mem _ hc, (eq_of_beq heq).symm⟩

theorem TrackSpec.Checked.safe_category (ht : TrackSpec.Checked t) :
    Safe t.category ∧ t.category.length ≤ 32 := by
  have hall : ∀ c ∈ customCategory :: presetCategories,
      (∀ b ∈ Wire.ascii c, b < 0x80 ∧ isPlain b.toNat = true) ∧ (Wire.ascii c).length ≤ 32 := by
    decide +kernel
  obtain ⟨c, hc, heq⟩ := ht.category_eq
  rw [heq]
  exact hall c hc

/-! The payload as the viewer's text, for labels that are UTF-8. -/

def labelUnits (t : TrackSpec) : List Nat := (jsString t.label).getD []

def member (key : String) (value rest : List Nat) : List Nat :=
  quote :: (Ts.units key ++ quote :: 0x3a :: (value ++ rest))

def strText (s : List Nat) : List Nat := quote :: (s ++ [quote])

/-- The text of an entry before `rest`. -/
def entryText (t : TrackSpec) (rest : List Nat) : List Nat :=
  0x7b :: member "id" [0x30 + t.id.toNat] (0x2c ::
    member "slug" (strText (t.slug.map UInt8.toNat)) (0x2c ::
      member "category" (strText (t.category.map UInt8.toNat)) (0x2c ::
        member "label" (strText (labelUnits t)) (0x7d :: rest))))

def listText : List TrackSpec → List Nat → List Nat
  | [], rest => rest
  | [t], rest => entryText t rest
  | t :: ts, rest => entryText t (0x2c :: listText ts rest)

def payloadText (cfg : Config) : List Nat :=
  0x7b :: member "tracks" [0x5b] (listText cfg.tracks [0x5d, 0x7d])

/-- The constant parts of the payload. -/
theorem ascii_parts :
    (ascii "\x7b\"tracks\":[").map UInt8.toNat = 0x7b :: member "tracks" [0x5b] [] ∧
    (ascii "\x7b\"id\":").map UInt8.toNat = 0x7b :: member "id" [] [] ∧
    (ascii ",\"slug\":\"").map UInt8.toNat = 0x2c :: member "slug" [quote] [] ∧
    (ascii "\",\"category\":\"").map UInt8.toNat =
      quote :: 0x2c :: member "category" [quote] [] ∧
    (ascii "\",\"label\":\"").map UInt8.toNat = quote :: 0x2c :: member "label" [quote] [] ∧
    (ascii "\"\x7d").map UInt8.toNat = [quote, 0x7d] ∧
    (ascii ",").map UInt8.toNat = [0x2c] ∧
    (ascii "]\x7d").map UInt8.toNat = [0x5d, 0x7d] := by
  decide

theorem ascii_of_map {a : Bytes} (h : ∀ n ∈ a.map UInt8.toNat, n < 0x80) : Ascii a :=
  fun _ hb => UInt8.lt_iff_toNat_lt.mpr (h _ (List.mem_map_of_mem hb))

theorem ascii_toString (h1 : 1 ≤ n) (h8 : n ≤ 8) :
    (ascii (toString n)).map UInt8.toNat = [0x30 + n] := by
  have hall : ∀ k : Fin 9, 1 ≤ k.val →
      (ascii (toString k.val)).map UInt8.toNat = [0x30 + k.val] := by
    decide
  exact hall ⟨n, by omega⟩ h1

theorem jsString_entry {bs : Bytes} (ht : TrackSpec.Checked t) (h1 : 1 ≤ t.id.toNat)
    (h8 : t.id.toNat ≤ 8) (hl : jsString t.label = some (labelUnits t))
    (hb : jsString bs = some rest) : jsString (entry t ++ bs) = some (entryText t rest) := by
  have hid := ascii_toString h1 h8
  obtain ⟨-, hopen, hslug, hcategory, hlabel, hclose, -, -⟩ := ascii_parts
  have hdigit : Ascii (ascii (toString t.id.toNat)) := by
    apply ascii_of_map
    rw [hid]
    intro n hn
    rw [List.mem_singleton.mp hn]
    omega
  have := jsString_append (jsString_ascii (ascii_of_map (by rw [hclose]; decide))) hb
  have := jsString_append hl this
  have := jsString_append (jsString_ascii (ascii_of_map (by rw [hlabel]; decide))) this
  have := jsString_append (jsString_ascii ht.safe_category.1.ascii) this
  have := jsString_append (jsString_ascii (ascii_of_map (by rw [hcategory]; decide))) this
  have := jsString_append (jsString_ascii ht.safe_slug.1.ascii) this
  have := jsString_append (jsString_ascii (ascii_of_map (by rw [hslug]; decide))) this
  have := jsString_append (jsString_ascii hdigit) this
  have := jsString_append (jsString_ascii (ascii_of_map (by rw [hopen]; decide))) this
  rw [hopen, hid, hslug, hcategory, hlabel, hclose] at this
  simpa only [entry, entryText, member, strText, List.append_assoc, List.cons_append,
    List.nil_append] using this

theorem jsString_entries {ts : List TrackSpec} {bs : Bytes}
    (ht : ∀ t ∈ ts, t.Checked ∧ 1 ≤ t.id.toNat ∧ t.id.toNat ≤ 8)
    (hl : ∀ t ∈ ts, jsString t.label = some (labelUnits t)) (hb : jsString bs = some rest) :
    jsString (entries ts ++ bs) = some (listText ts rest) := by
  induction ts with
  | nil => exact hb
  | cons t ts ih =>
    obtain ⟨hchecked, h1, h8⟩ := ht t List.mem_cons_self
    have hlabel := hl t List.mem_cons_self
    cases ts with
    | nil => exact jsString_entry hchecked h1 h8 hlabel hb
    | cons t' ts =>
      have htail := ih (fun u hu => ht u (List.mem_cons_of_mem _ hu))
        (fun u hu => hl u (List.mem_cons_of_mem _ hu))
      have hcomma := ascii_parts.2.2.2.2.2.2.1
      have := jsString_append (jsString_ascii (ascii_of_map (by rw [hcomma]; decide))) htail
      rw [hcomma] at this
      have := jsString_entry hchecked h1 h8 hlabel this
      simpa only [entries, listText, List.append_assoc, List.cons_append, List.nil_append] using this

theorem buildTrackListPayload_cons (cfg : Config) :
    ∃ bs, buildTrackListPayload cfg = 0x7b :: bs := by
  have hopen : ascii "\x7b\"tracks\":[" = 0x7b :: ascii "\"tracks\":[" := by decide
  rw [buildTrackListPayload, hopen]
  exact ⟨_, rfl⟩

theorem jsString_payload {cfg : Config}
    (ht : ∀ t ∈ cfg.tracks, t.Checked ∧ 1 ≤ t.id.toNat ∧ t.id.toNat ≤ 8)
    (hl : ∀ t ∈ cfg.tracks, jsString t.label = some (labelUnits t)) :
    jsString (buildTrackListPayload cfg) = some (payloadText cfg) := by
  obtain ⟨hopen, -, -, -, -, -, -, hclose⟩ := ascii_parts
  have hrest : jsString (ascii "]\x7d") = some [0x5d, 0x7d] := by
    rw [jsString_ascii (ascii_of_map (by rw [hclose]; decide)), hclose]
  have := jsString_entries ht hl hrest
  have := jsString_append (jsString_ascii (ascii_of_map (by rw [hopen]; decide))) this
  rw [hopen] at this
  simpa only [buildTrackListPayload, payloadText, member, List.append_assoc, List.cons_append,
    List.nil_append] using this

/-! The text parses to the tracks when no label needs an escape. -/

def entryValue (t : TrackSpec) : Value :=
  .obj [(Ts.units "id", .num (.ofDecimal t.id.toNat)),
    (Ts.units "slug", .str (t.slug.map UInt8.toNat)),
    (Ts.units "category", .str (t.category.map UInt8.toNat)),
    (Ts.units "label", .str (labelUnits t))]

theorem plain_keys : ∀ key ∈ ["tracks", "id", "slug", "category", "label"],
    ∀ c ∈ Ts.units key, isPlain c = true := by
  decide

theorem parseValue_strText (n : Nat) (hs : ∀ c ∈ s, isPlain c = true) (rest : List Nat) :
    parseValue (n + 1) (strText s ++ rest) = some (.str s, rest) := by
  rw [strText, List.cons_append, List.append_assoc]
  exact Json.parseValue_str n hs rest

theorem skip_quote (s : List Nat) : skip (quote :: s) = quote :: s := Json.skip_cons rfl s

theorem parseMembers_member {w : List Nat} (key : String)
    (hkey : key ∈ ["tracks", "id", "slug", "category", "label"])
    (hskip : skip (w ++ 0x2c :: quote :: rest) = w ++ 0x2c :: quote :: rest)
    (hv : parseValue n (w ++ 0x2c :: quote :: rest) = some (v, 0x2c :: quote :: rest))
    (h : parseMembers n (quote :: rest) = some (fields, r)) :
    parseMembers (n + 1) (member key w (0x2c :: quote :: rest)) =
      some ((Ts.units key, v) :: fields, r) := by
  rw [member, Json.parseMembers_comma (plain_keys key hkey) hskip hv (skip_quote _), h]
  rfl

theorem parseValue_entryText (n : Nat) (ht : TrackSpec.Checked t) (h1 : 1 ≤ t.id.toNat)
    (h8 : t.id.toNat ≤ 8) (hl : ∀ c ∈ labelUnits t, isPlain c = true) (rest : List Nat) :
    parseValue (n + 6) (entryText t rest) = some (entryValue t, rest) := by
  have hdigit (s : List Nat) : skip ((0x30 + t.id.toNat) :: s) = (0x30 + t.id.toNat) :: s := by
    apply Json.skip_cons
    simp [Json.isSpace]
    omega
  have hlabel : parseMembers (n + 2) (member "label" (strText (labelUnits t)) (0x7d :: rest)) =
      some ([(Ts.units "label", .str (labelUnits t))], rest) :=
    Json.parseMembers_close (plain_keys "label" (by decide)) (skip_quote _)
      (parseValue_strText n hl _)
  have hcategory := parseMembers_member "category" (by decide) (skip_quote _)
    (parseValue_strText (n + 1) ht.safe_category.1.plain _) hlabel
  have hslug := parseMembers_member "slug" (by decide) (skip_quote _)
    (parseValue_strText (n + 2) ht.safe_slug.1.plain _) hcategory
  have hid := parseMembers_member (w := [0x30 + t.id.toNat]) "id" (by decide) (hdigit _)
    (Json.parseValue_digit (n + 3) h1 (Nat.le_succ_of_le h8) _) hslug
  exact Json.parseValue_obj hid

theorem parseElements_listText {ts : List TrackSpec} (n : Nat) (hne : ts ≠ [])
    (ht : ∀ t ∈ ts, t.Checked ∧ 1 ≤ t.id.toNat ∧ t.id.toNat ≤ 8)
    (hl : ∀ t ∈ ts, ∀ c ∈ labelUnits t, isPlain c = true) (rest : List Nat) :
    parseElements (n + 6 + ts.length) (listText ts (0x5d :: rest)) =
      some (ts.map entryValue, rest) := by
  induction ts with
  | nil => exact absurd rfl hne
  | cons t ts ih =>
    obtain ⟨hchecked, h1, h8⟩ := ht t List.mem_cons_self
    have hlabel := hl t List.mem_cons_self
    cases ts with
    | nil => exact Json.parseElements_close (parseValue_entryText n hchecked h1 h8 hlabel _)
    | cons t' ts =>
      have htail := ih (List.cons_ne_nil _ _) (fun u hu => ht u (List.mem_cons_of_mem _ hu))
        (fun u hu => hl u (List.mem_cons_of_mem _ hu))
      have hskip : skip (listText (t' :: ts) (0x5d :: rest)) = listText (t' :: ts) (0x5d :: rest) := by
        cases ts <;> exact Json.skip_cons rfl _
      have hentry := parseValue_entryText (n + (t' :: ts).length) hchecked h1 h8 hlabel
        (0x2c :: listText (t' :: ts) (0x5d :: rest))
      rw [Nat.add_right_comm] at hentry
      have hcomma := Json.parseElements_comma hentry hskip
      rw [htail] at hcomma
      exact hcomma

theorem parse_payloadText {cfg : Config} (hne : cfg.tracks ≠ [])
    (ht : ∀ t ∈ cfg.tracks, t.Checked ∧ 1 ≤ t.id.toNat ∧ t.id.toNat ≤ 8)
    (hl : ∀ t ∈ cfg.tracks, ∀ c ∈ labelUnits t, isPlain c = true) :
    Json.parse (payloadText cfg) =
      some (.obj [(Ts.units "tracks", .arr (cfg.tracks.map entryValue))]) := by
  obtain ⟨t, ts, htracks⟩ := List.exists_cons_of_ne_nil hne
  have hopen : ∃ s, listText cfg.tracks [0x5d, 0x7d] = 0x7b :: s := by
    rw [htracks]
    cases ts <;> exact ⟨_, rfl⟩
  obtain ⟨s, hs⟩ := hopen
  have helements := parseElements_listText (2 * (payloadText cfg).length + 1) hne ht hl [0x7d]
  rw [hs] at helements
  have harr := Json.parseValue_arr rfl (by decide) helements
  have hmembers := Json.parseMembers_close (plain_keys "tracks" (by decide))
    (Json.skip_cons rfl _) harr
  have hobj := Json.parseValue_obj hmembers
  rw [← hs] at hobj
  apply Json.parse_of_fuel (n := 9 + cfg.tracks.length) (r := [])
  · rw [show skip (payloadText cfg) = payloadText cfg from Json.skip_cons rfl _]
    convert hobj using 2
    · omega
    · rfl
  · rfl

/-! The viewer's checks pass, and the tracks come back as they were announced. -/

def TrackSpec.info (t : TrackSpec) : Ts.TrackInfo :=
  ⟨.fin t.id.toNat, t.slug.map UInt8.toNat, t.category.map UInt8.toNat, labelUnits t⟩

theorem get_entryValue (t : TrackSpec) :
    Ts.get (entryValue t) "id" = some (.num (.ofDecimal t.id.toNat)) ∧
    Ts.get (entryValue t) "slug" = some (.str (t.slug.map UInt8.toNat)) ∧
    Ts.get (entryValue t) "category" = some (.str (t.category.map UInt8.toNat)) ∧
    Ts.get (entryValue t) "label" = some (.str (labelUnits t)) := by
  have hid : Ts.units "id" = [0x69, 0x64] := by decide
  have hslug : Ts.units "slug" = [0x73, 0x6c, 0x75, 0x67] := by decide
  have hcategory : Ts.units "category" = [0x63, 0x61, 0x74, 0x65, 0x67, 0x6f, 0x72, 0x79] := by
    decide
  have hlabel : Ts.units "label" = [0x6c, 0x61, 0x62, 0x65, 0x6c] := by decide
  simp only [entryValue, Ts.get, hid, hslug, hcategory, hlabel]
  exact ⟨rfl, rfl, rfl, rfl⟩

theorem TrackSpec.Checked.category_units (ht : TrackSpec.Checked t) :
    Ts.IsCategory (t.category.map UInt8.toNat) := by
  obtain h | h := ht.category
  · rw [h]
    exact .inl rfl
  · obtain ⟨c, hc, heq⟩ := List.any_eq_true.mp h
    rw [← eq_of_beq heq]
    exact .inr (List.any_eq_true.mpr ⟨c, hc, beq_self_eq_true _⟩)

theorem entry_entryValue (ht : TrackSpec.Checked t) (h1 : 1 ≤ t.id.toNat)
    (h8 : t.id.toNat ≤ 8) (hl : (labelUnits t).length ≤ 64) : Ts.Entry (entryValue t) t.info := by
  obtain ⟨hid, hslug, hcategory, hlabel⟩ := get_entryValue t
  rw [Js.Number.ofDecimal_natCast (by omega)] at hid
  exact ⟨⟨⟨_, rfl, h1, h8⟩, isValidSlug_units ht.slug, ht.category_units, hl⟩, hid, hslug, hcategory,
    hlabel⟩

theorem decodeTracks_entryValue {ts : List TrackSpec}
    (ht : ∀ t ∈ ts, t.Checked ∧ 1 ≤ t.id.toNat ∧ t.id.toNat ≤ 8)
    (hl : ∀ t ∈ ts, (labelUnits t).length ≤ 64)
    (hnodup : (ts.map (fun t => t.id.toNat)).Nodup) :
    Ts.decodeTracks [] (ts.map entryValue) = .ok (ts.map TrackSpec.info) := by
  apply Ts.decodeTracks_eq_ok.mpr
  refine ⟨?_, ?_, fun _ _ => nofun⟩
  · rw [List.forall₂_map_left_iff, List.forall₂_map_right_iff, List.forall₂_same]
    intro t hmem
    obtain ⟨hchecked, h1, h8⟩ := ht t hmem
    exact entry_entryValue hchecked h1 h8 (hl t hmem)
  · have hid : (ts.map TrackSpec.info).map Ts.TrackInfo.id =
        (ts.map (fun t => t.id.toNat)).map (fun n : Nat => (.fin n : Js.Number)) := by
      rw [List.map_map, List.map_map]
      rfl
    rw [hid]
    exact hnodup.map (fun m n h => Nat.cast_injective (Js.Number.fin_injective h))

/-- What the viewer has to get for a track. -/
structure Matches (t : TrackSpec) (i : Ts.TrackInfo) : Prop where
  id : i.id = .fin t.id.toNat
  slug : jsString t.slug = some i.slug
  category : jsString t.category = some i.category
  label : jsString t.label = some i.label

/-- The payload is one the viewer accepts, and it decodes to the tracks in their order. -/
def Announced (cfg : Config) : Prop :=
  ∃ infos, Ts.decodeTrackList (buildTrackListPayload cfg) = .ok infos ∧
    List.Forall₂ Matches cfg.tracks infos

/-- A label of at most 64 UTF-16 units, none of which JSON escapes. -/
def Verbatim (label : Bytes) : Prop :=
  ∃ u, jsString label = some u ∧ u.length ≤ 64 ∧ ∀ c ∈ u, isPlain c = true

theorem labelUnits_eq (h : jsString t.label = some u) : labelUnits t = u := by
  rw [labelUnits, h]
  rfl

theorem Matches.of_checked (ht : TrackSpec.Checked t) (hl : jsString t.label = some u) :
    Matches t t.info :=
  ⟨rfl, jsString_ascii ht.safe_slug.1.ascii, jsString_ascii ht.safe_category.1.ascii,
    hl.trans (congrArg some (labelUnits_eq hl).symm)⟩

theorem length_entry (h1 : 1 ≤ t.id.toNat) (h8 : t.id.toNat ≤ 8) :
    (entry t).length = 43 + t.slug.length + t.category.length + t.label.length := by
  have hid := congrArg List.length (ascii_toString h1 h8)
  have hparts : (ascii "\x7b\"id\":").length = 6 ∧ (ascii ",\"slug\":\"").length = 9 ∧
      (ascii "\",\"category\":\"").length = 14 ∧ (ascii "\",\"label\":\"").length = 11 ∧
      (ascii "\"\x7d").length = 2 := by
    decide
  obtain ⟨h6, h9, h14, h11, h2⟩ := hparts
  rw [List.length_map, List.length_singleton] at hid
  simp only [entry, List.length_append]
  omega

/-- Each entry and the comma or bracket after it. -/
theorem length_entries (hne : ts ≠ []) :
    (entries ts).length + 1 = (ts.map (fun t => (entry t).length + 1)).sum := by
  have hcomma : (ascii ",").length = 1 := by decide
  induction ts with
  | nil => exact absurd rfl hne
  | cons t ts ih =>
    cases ts with
    | nil => simp [entries]
    | cons t' ts =>
      rw [List.map_cons, List.sum_cons, ← ih (List.cons_ne_nil _ _)]
      simp only [entries, List.length_append, hcomma]
      omega

theorem length_payload (hne : cfg.tracks ≠ []) : (buildTrackListPayload cfg).length =
    12 + (cfg.tracks.map (fun t => (entry t).length + 1)).sum := by
  have hparts : (ascii "\x7b\"tracks\":[").length = 11 ∧ (ascii "]\x7d").length = 2 := by
    decide
  rw [← length_entries hne, buildTrackListPayload, List.length_append, List.length_append,
    hparts.1, hparts.2]
  omega

theorem length_entry_le (ht : TrackSpec.Checked t) (h1 : 1 ≤ t.id.toNat) (h8 : t.id.toNat ≤ 8)
    (hl : Verbatim t.label) : (entry t).length ≤ 395 := by
  obtain ⟨u, hu, h64, -⟩ := hl
  have hslug := ht.safe_slug.2
  have hcategory := ht.safe_category.2
  have hlabel := length_jsString hu
  rw [length_entry h1 h8]
  omega

theorem length_payload_le (hne : cfg.tracks ≠ [])
    (ht : ∀ t ∈ cfg.tracks, t.Checked ∧ 1 ≤ t.id.toNat ∧ t.id.toNat ≤ 8)
    (hlen : cfg.tracks.length ≤ 8) (hl : ∀ t ∈ cfg.tracks, Verbatim t.label) :
    (buildTrackListPayload cfg).length ≤ Ts.maxJsonBytes := by
  have hsum := List.sum_le_card_nsmul (cfg.tracks.map (fun t => (entry t).length + 1)) 396 (by
    intro n hn
    obtain ⟨t, hmem, rfl⟩ := List.mem_map.mp hn
    obtain ⟨hchecked, h1, h8⟩ := ht t hmem
    exact Nat.succ_le_succ (length_entry_le hchecked h1 h8 (hl t hmem)))
  rw [List.length_map, nsmul_eq_mul, Nat.cast_id] at hsum
  rw [length_payload hne, Ts.maxJsonBytes]
  omega

theorem Config.Checked.each {cfg : Config} (hc : cfg.Checked) (hlen : cfg.tracks.length ≤ 8) :
    ∀ t ∈ cfg.tracks, t.Checked ∧ 1 ≤ t.id.toNat ∧ t.id.toNat ≤ 8 := by
  intro t ht
  have hmem : t.id.toNat ∈ cfg.tracks.map (fun t => t.id.toNat) := List.mem_map_of_mem ht
  rw [id_of_checked hc hlen, List.mem_range'_1] at hmem
  exact ⟨hc.tracks t ht, hmem.1, by omega⟩

theorem get_tracks (v : Value) : Ts.get (.obj [(Ts.units "tracks", v)]) "tracks" = some v := by
  simp [Ts.get]

theorem announced_of_verbatim {cfg : Config} (hc : cfg.Checked) (hne : cfg.tracks ≠ [])
    (hlen : cfg.tracks.length ≤ 8) (hl : ∀ t ∈ cfg.tracks, Verbatim t.label) :
    Announced cfg := by
  have ht := hc.each hlen
  have hunits : ∀ t ∈ cfg.tracks, jsString t.label = some (labelUnits t) ∧
      (labelUnits t).length ≤ 64 ∧ ∀ c ∈ labelUnits t, isPlain c = true := by
    intro t hmem
    obtain ⟨u, hu, h⟩ := hl t hmem
    rw [labelUnits_eq hu]
    exact ⟨hu, h⟩
  have hsize := length_payload_le hne ht hlen hl
  have htext := jsString_payload ht (fun t hmem => (hunits t hmem).1)
  have hparse := parse_payloadText hne ht (fun t hmem => (hunits t hmem).2.2)
  obtain ⟨bs, hbs⟩ := buildTrackListPayload_cons cfg
  rw [hbs] at hsize htext
  have hjson := Ts.decodeJson_of_parse hsize (by rw [htext, Option.bind_some, hparse])
  have hnodup : (cfg.tracks.map (fun t => t.id.toNat)).Nodup := by
    rw [id_of_checked hc hlen]
    exact List.nodup_range'
  have htracks := decodeTracks_entryValue ht (fun t hmem => (hunits t hmem).2.1) hnodup
  refine ⟨cfg.tracks.map TrackSpec.info, ?_, ?_⟩
  · rw [hbs, Ts.decodeTrackList, hjson]
    simp only [bind, Except.bind, get_tracks, List.length_map, htracks]
    exact if_neg (Nat.not_lt.mpr hlen)
  · rw [List.forall₂_map_right_iff, List.forall₂_same]
    exact fun t hmem => .of_checked (ht t hmem).1 (hunits t hmem).1

/-! A label that has to be escaped is one unit too long for the text it stands in. -/

def sumWeight (s : List Nat) : Nat := (s.map Json.charWeight).sum

def infoWeight (i : Ts.TrackInfo) : Nat :=
  43 + sumWeight i.slug + sumWeight i.category + sumWeight i.label

theorem infoWeight_le (h : Ts.Entry raw i) : infoWeight i ≤ raw.weight := by
  obtain ⟨fields, rfl⟩ := Ts.get_eq_some h.get_id
  have hkeys : (["id", "slug", "category", "label"].map Ts.units).Nodup := by decide
  have hlen : sumWeight (Ts.units "id") = 2 ∧ sumWeight (Ts.units "slug") = 4 ∧
      sumWeight (Ts.units "category") = 8 ∧ sumWeight (Ts.units "label") = 5 := by
    decide
  have := Json.weight_members (m := [(Ts.units "id", .num i.id), (Ts.units "slug", .str i.slug),
    (Ts.units "category", .str i.category), (Ts.units "label", .str i.label)]) hkeys (by
      simp only [List.forall_mem_cons]
      exact ⟨Ts.mem_of_get h.get_id, Ts.mem_of_get h.get_slug, Ts.mem_of_get h.get_category,
        Ts.mem_of_get h.get_label, nofun⟩)
  simp only [List.map_cons, List.map_nil, List.sum_cons, List.sum_nil, Json.memberWeight,
    Value.weight, Json.strWeight] at this
  simp only [infoWeight, sumWeight, Value.weight] at hlen ⊢
  omega

theorem infoWeights_le (h : List.Forall₂ Ts.Entry raws infos) :
    (infos.map (fun i => infoWeight i + 1)).sum ≤ Json.weightElements raws ∧
      ∀ i ∈ infos, i.label.length ≤ 64 := by
  induction h with
  | nil => exact ⟨Nat.le_refl 0, nofun⟩
  | cons hentry _ ih =>
    obtain ⟨hsum, hlabels⟩ := ih
    have := infoWeight_le hentry
    refine ⟨?_, List.forall_mem_cons.mpr ⟨hentry.label, hlabels⟩⟩
    rw [List.map_cons, List.sum_cons, Json.weightElements]
    omega

def textLength (t : TrackSpec) : Nat :=
  43 + t.slug.length + t.category.length + (labelUnits t).length

theorem length_keys : (Ts.units "tracks").length = 6 ∧ (Ts.units "id").length = 2 ∧
    (Ts.units "slug").length = 4 ∧ (Ts.units "category").length = 8 ∧
    (Ts.units "label").length = 5 := by
  decide

theorem length_entryText (t : TrackSpec) (rest : List Nat) :
    (entryText t rest).length = textLength t + rest.length := by
  obtain ⟨-, hid, hslug, hcategory, hlabel⟩ := length_keys
  simp only [entryText, member, strText, textLength, List.length_cons, List.length_append,
    List.length_map, List.length_nil, hid, hslug, hcategory, hlabel]
  omega

theorem length_listText {ts : List TrackSpec} (hne : ts ≠ []) (rest : List Nat) :
    (listText ts rest).length + 1 = (ts.map (fun t => textLength t + 1)).sum + rest.length := by
  induction ts with
  | nil => exact absurd rfl hne
  | cons t ts ih =>
    cases ts with
    | nil =>
      simp only [listText, length_entryText, List.map_cons, List.map_nil, List.sum_cons,
        List.sum_nil]
      omega
    | cons t' ts =>
      have htail := ih (List.cons_ne_nil _ _)
      rw [List.map_cons, List.sum_cons]
      simp only [listText, length_entryText, List.length_cons]
      omega

theorem length_payloadText {cfg : Config} (hne : cfg.tracks ≠ []) :
    (payloadText cfg).length = 12 + (cfg.tracks.map (fun t => textLength t + 1)).sum := by
  have hlist := length_listText hne [0x5d, 0x7d]
  have hkey := length_keys.1
  simp only [payloadText, member, List.length_cons, List.length_append, List.length_nil] at hlist ⊢
  omega

theorem Matches.eq_info (ht : TrackSpec.Checked t) (h : Matches t i) : i = t.info := by
  obtain ⟨n, slug, category, label⟩ := i
  obtain ⟨hid, hslug, hcategory, hlabel⟩ := h
  rw [jsString_ascii ht.safe_slug.1.ascii] at hslug
  rw [jsString_ascii ht.safe_category.1.ascii] at hcategory
  cases hid
  cases hslug
  cases hcategory
  rw [TrackSpec.info, labelUnits_eq hlabel]

theorem eq_map_info {ts : List TrackSpec} (ht : ∀ t ∈ ts, t.Checked)
    (h : List.Forall₂ Matches ts infos) :
    infos = ts.map TrackSpec.info ∧ ∀ t ∈ ts, jsString t.label = some (labelUnits t) := by
  induction h with
  | nil => exact ⟨rfl, nofun⟩
  | @cons t i ts infos hmatch _ ih =>
    obtain ⟨hinfos, hlabels⟩ := ih (fun u hu => ht u (List.mem_cons_of_mem _ hu))
    have hinfo := hmatch.eq_info (ht t List.mem_cons_self)
    refine ⟨by rw [hinfo, hinfos, List.map_cons], ?_⟩
    refine List.forall_mem_cons.mpr ⟨?_, hlabels⟩
    rw [hmatch.label, hinfo]
    rfl

theorem textLength_le (t : TrackSpec) : textLength t ≤ infoWeight t.info := by
  have hslug := Json.le_sum_charWeight (t.slug.map UInt8.toNat)
  have hcategory := Json.le_sum_charWeight (t.category.map UInt8.toNat)
  have hlabel := Json.le_sum_charWeight (labelUnits t)
  simp only [List.length_map] at hslug hcategory
  simp only [textLength, infoWeight, TrackSpec.info, sumWeight]
  omega

theorem plain_of_infoWeight (h : infoWeight t.info ≤ textLength t) :
    ∀ c ∈ labelUnits t, isPlain c = true := by
  have hslug := Json.le_sum_charWeight (t.slug.map UInt8.toNat)
  have hcategory := Json.le_sum_charWeight (t.category.map UInt8.toNat)
  apply Json.plain_of_sum_charWeight
  simp only [List.length_map] at hslug hcategory
  simp only [textLength, infoWeight, TrackSpec.info, sumWeight] at h
  omega

theorem decodeTrackList_eq_ok {bs : Bytes} (h : Ts.decodeTrackList (0x7b :: bs) = .ok infos) :
    ∃ fields raws, (jsString (0x7b :: bs)).bind Json.parse = some (.obj fields) ∧
      Ts.get (.obj fields) "tracks" = some (.arr raws) ∧ List.Forall₂ Ts.Entry raws infos := by
  obtain ⟨v, raws, hv, hraws, hentries, -⟩ := Ts.decodeTrackList_eq_ok.mp h
  obtain ⟨fields, hparse, rfl⟩ := Ts.decodeJson_eq_ok hv
  exact ⟨fields, raws, hparse, hraws, hentries⟩

theorem verbatim_of_announced {cfg : Config} (hc : cfg.Checked) (hne : cfg.tracks ≠ [])
    (hlen : cfg.tracks.length ≤ 8) (h : Announced cfg) : ∀ t ∈ cfg.tracks, Verbatim t.label := by
  obtain ⟨infos, hdecode, hmatch⟩ := h
  obtain ⟨rfl, hlabels⟩ := eq_map_info hc.tracks hmatch
  have htext := jsString_payload (hc.each hlen) hlabels
  obtain ⟨bs, hbs⟩ := buildTrackListPayload_cons cfg
  rw [hbs] at hdecode htext
  obtain ⟨fields, raws, hparse, htracks, hraws⟩ := decodeTrackList_eq_ok hdecode
  rw [htext, Option.bind_some] at hparse
  obtain ⟨hsum, h64⟩ := infoWeights_le hraws
  have hkey : sumWeight (Ts.units "tracks") = 6 := by decide
  have hmember := Json.weight_members (m := [(Ts.units "tracks", .arr raws)])
    (List.nodup_singleton _) (by simpa using Ts.mem_of_get htracks)
  have hweight := Json.weight_le hparse
  rw [length_payloadText hne] at hweight
  simp only [List.map_cons, List.map_nil, List.sum_singleton, Json.memberWeight, Value.weight,
    Json.strWeight] at hmember hweight
  rw [sumWeight] at hkey
  rw [List.map_map] at hsum
  intro t ht
  refine ⟨labelUnits t, hlabels t ht, h64 _ (List.mem_map_of_mem ht), ?_⟩
  apply plain_of_infoWeight
  by_contra hlt
  have := List.sum_lt_sum (fun t => textLength t + 1) (fun t => infoWeight t.info + 1)
    (l := cfg.tracks) (fun u _ => Nat.succ_le_succ (textLength_le u))
    ⟨t, ht, Nat.succ_lt_succ (Nat.lt_of_not_le hlt)⟩
  simp only [Function.comp_def] at hsum
  omega

theorem announced_iff_verbatim (h : parseArgs args = .ok cfg) :
    Announced cfg ↔ ∀ t ∈ cfg.tracks, Verbatim t.label := by
  obtain ⟨hc, hpos, hlen⟩ := checked_parseArgs h
  have hne : cfg.tracks ≠ [] := List.length_pos_iff.mp hpos
  exact ⟨verbatim_of_announced hc hne hlen, announced_of_verbatim hc hne hlen⟩

def required : List Bytes :=
  [ascii "--relay", ascii "ws://localhost:8080", ascii "--channel", ascii "twitch:dev",
    ascii "--token", ascii "TOKEN"]

def configOf (tracks : List TrackSpec) : Config :=
  { Config.default with
    relayUrl := ascii "ws://localhost:8080"
    channel := ascii "twitch:dev"
    token := ascii "TOKEN"
    tracks }

def customMic (label : Bytes) : TrackSpec :=
  ⟨2, ascii "custom", ascii "my-mic", label, ascii "VirtualMic.exe"⟩

def music : TrackSpec := ⟨1, ascii "music", ascii "music", ascii "Music", ascii "Spotify.exe"⟩

theorem announced_iff_verbatim_two :
    parseArgs (required ++ [ascii "--track", ascii "music:Spotify.exe", ascii "--track",
      ascii "custom:My Mic|VirtualMic.exe"]) = .ok (configOf [music, customMic (ascii "My Mic")]) ∧
    Announced (configOf [music, customMic (ascii "My Mic")]) := by
  have h : parseArgs (required ++ [ascii "--track", ascii "music:Spotify.exe", ascii "--track",
      ascii "custom:My Mic|VirtualMic.exe"]) =
      .ok (configOf [music, customMic (ascii "My Mic")]) := by
    decide
  have hmusic : Verbatim music.label := ⟨Ts.units "Music", by decide⟩
  have hmic : Verbatim (customMic (ascii "My Mic")).label := ⟨Ts.units "My Mic", by decide⟩
  refine ⟨h, (announced_iff_verbatim h).mpr ?_⟩
  exact List.forall_mem_cons.mpr ⟨hmusic, List.forall_mem_singleton.mpr hmic⟩

/-- A quote in a label ends the JSON string it is pasted into. -/
theorem quoted_label_not_announced :
    parseArgs (required ++ [ascii "--track", ascii "music:Spotify.exe", ascii "--track",
      ascii "custom:My \"Mic\"|VirtualMic.exe"]) =
      .ok (configOf [music, customMic (ascii "My \"Mic\"")]) ∧
    ¬ Announced (configOf [music, customMic (ascii "My \"Mic\"")]) := by
  refine ⟨by decide, ?_⟩
  rintro ⟨infos, hdecode, -⟩
  have hfail : (Ts.decodeTrackList (buildTrackListPayload
      (configOf [music, customMic (ascii "My \"Mic\"")]))).isOk = false := by
    decide +kernel
  rw [hdecode] at hfail
  cases hfail

end StreamMix.Publisher
