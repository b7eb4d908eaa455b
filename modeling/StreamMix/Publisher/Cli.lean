import StreamMix.Wire.Messages

namespace StreamMix.Publisher

open Wire

structure TrackSpec where
  id : UInt8
  category : Bytes
  slug : Bytes
  label : Bytes
  process : Bytes
  deriving DecidableEq

structure Config where
  relayUrl : Bytes
  channel : Bytes
  token : Bytes
  tracks : List TrackSpec
  bitrateKbps : Int
  deriving DecidableEq

def Config.default : Config := ⟨[], [], [], [], 48⟩

structure CliError where
  message : Bytes
  deriving DecidableEq

/-- Split at the first `c`, which neither half keeps. -/
def cut (c : UInt8) : Bytes → Option (Bytes × Bytes)
  | [] => none
  | b :: bs => if b = c then some ([], bs) else (cut c bs).map (fun p => (b :: p.1, p.2))

theorem cut_eq_none : cut c s = none ↔ c ∉ s := by
  induction s with
  | nil => simp [cut]
  | cons b bs ih =>
    by_cases h : b = c
    · simp [cut, h]
    · simp [cut, h, ih, Ne.symm h]

theorem cut_eq_some : cut c s = some (a, b) ↔ s = a ++ c :: b ∧ c ∉ a := by
  induction s generalizing a with
  | nil => simp [cut]
  | cons d ds ih =>
    by_cases h : d = c
    · cases a with
      | nil => simp [cut, h]
      | cons x xs =>
        have hx : d :: ds = x :: xs ++ c :: b → x = c := by simp +contextual [← h]
        simp only [cut, h, if_true]
        grind
    · have hmap : cut c (d :: ds) = some (a, b) ↔
          ∃ xs, cut c ds = some (xs, b) ∧ d :: xs = a := by
        simp [cut, h]
      rw [hmap]
      cases a with
      | nil => simp [h]
      | cons x xs =>
        simp only [ih, List.cons.injEq, List.cons_append, List.mem_cons]
        grind

def toUpper (c : UInt8) : UInt8 := if 0x61 ≤ c ∧ c ≤ 0x7a then c - 0x20 else c

/-- The slug loop of `ParseTrackArg`: `slug` is reversed, so its head is `slug.back()`. -/
def slugLoop : Bytes → Bool → Bytes → Bytes
  | slug, _, [] => slug
  | slug, prevDash, c :: label =>
    if Cpp.isSlugChar c then slugLoop (c :: slug) false label
    else if 0x41 ≤ c ∧ c ≤ 0x5a then slugLoop ((c + 0x20) :: slug) false label
    else if !prevDash && !slug.isEmpty then slugLoop (Cpp.dash :: slug) true label
    else slugLoop slug prevDash label

def slugOf (label : Bytes) : Bytes :=
  ((slugLoop [] false label).dropWhile (fun c => c == Cpp.dash)).reverse

/-- The fields of a `TrackSpec` apart from its id. -/
def parseTrackArg (arg : Bytes) : Option (UInt8 → TrackSpec) :=
  match cut 0x3a arg with
  | none => none
  | some (category, rest) =>
    if rest.isEmpty then none
    else if category ≠ ascii customCategory ∧ !Cpp.isPresetCategory category then none
    else if category = ascii customCategory then
      match cut 0x7c rest with
      | none => none
      | some (label, process) =>
        if label.isEmpty || process.isEmpty then none
        else
          let slug := slugOf label
          if slug.isEmpty || !Cpp.isValidSlug slug then none
          else some (fun id => ⟨id, category, slug, label, process⟩)
    else
      let label := category.modifyHead toUpper
      some (fun id => ⟨id, category, category, label, rest⟩)

def isSpace (c : UInt8) : Bool := c == 0x20 || (0x09 ≤ c && c ≤ 0x0d)

def isDigit (c : UInt8) : Bool := 0x30 ≤ c && c ≤ 0x39

/-- The number `std::atoi` reads, of any size. -/
def atoi (s : Bytes) : Int :=
  let digits (t : Bytes) : Int :=
    (t.takeWhile isDigit).foldl (fun n d => n * 10 + (d.toNat - 0x30 : Nat)) 0
  match s.dropWhile isSpace with
  | [] => 0
  | c :: t => if c = 0x2d then -digits t else if c = 0x2b then digits t else digits (c :: t)

def addTrack (cfg : Config) (spec : UInt8 → TrackSpec) : Config :=
  { cfg with tracks := cfg.tracks ++ [spec (UInt8.ofNat (cfg.tracks.length + 1))] }

/-- The loop of `ParseArgs` over the arguments after the program's name. -/
def parseFlags : Config → List Bytes → Except CliError Config
  | cfg, [] => .ok cfg
  | _, [flag] =>
    if flag = ascii "--relay" ∨ flag = ascii "--channel" ∨ flag = ascii "--token" ∨
        flag = ascii "--bitrate" ∨ flag = ascii "--track" then
      .error ⟨flag ++ ascii " needs a value"⟩
    else if flag = ascii "--help" ∨ flag = ascii "-h" then .error ⟨ascii "help"⟩
    else .error ⟨ascii "unknown flag: " ++ flag⟩
  | cfg, flag :: v :: args =>
    if flag = ascii "--relay" then parseFlags { cfg with relayUrl := v } args
    else if flag = ascii "--channel" then parseFlags { cfg with channel := v } args
    else if flag = ascii "--token" then parseFlags { cfg with token := v } args
    else if flag = ascii "--bitrate" then
      if atoi v < 16 ∨ 128 < atoi v then .error ⟨ascii "--bitrate must be in [16, 128] kbps"⟩
      else parseFlags { cfg with bitrateKbps := atoi v } args
    else if flag = ascii "--track" then
      match parseTrackArg v with
      | none => .error ⟨ascii "invalid --track spec: " ++ v⟩
      | some spec => parseFlags (addTrack cfg spec) args
    else if flag = ascii "--help" ∨ flag = ascii "-h" then .error ⟨ascii "help"⟩
    else .error ⟨ascii "unknown flag: " ++ flag⟩

/-- The arguments are those after the program's name. -/
def parseArgs (args : List Bytes) : Except CliError Config := do
  let cfg ← parseFlags .default args
  if cfg.relayUrl.isEmpty then .error ⟨ascii "--relay is required"⟩
  else if cfg.channel.isEmpty then .error ⟨ascii "--channel is required"⟩
  else if cfg.token.isEmpty then .error ⟨ascii "--token is required"⟩
  else if cfg.tracks.isEmpty then .error ⟨ascii "at least one --track is required"⟩
  else if cfg.tracks.length > 8 then .error ⟨ascii "maximum 8 tracks (ADR-001)"⟩
  else .ok cfg

def entry (t : TrackSpec) : Bytes :=
  ascii "\x7b\"id\":" ++ ascii (toString t.id.toNat) ++ ascii ",\"slug\":\"" ++ t.slug ++
    ascii "\",\"category\":\"" ++ t.category ++ ascii "\",\"label\":\"" ++ t.label ++
    ascii "\"\x7d"

/-- The entries, each but the first after a comma. -/
def entries : List TrackSpec → Bytes
  | [] => []
  | [t] => entry t
  | t :: ts => entry t ++ ascii "," ++ entries ts

def buildTrackListPayload (cfg : Config) : Bytes :=
  ascii "\x7b\"tracks\":[" ++ entries cfg.tracks ++ ascii "]\x7d"

end StreamMix.Publisher
