import UltraGrid.VideoCompress.Configure

/-!
# The libavcodec compressor across tiles and messages

`libavcodec_compress_tile` first hands the pending compression-change messages to `parse_fmt`
(`checkMessages`); each message clears `saved_desc`. It then compares the tile's format with
`saved_desc`: on a match it encodes with the encoder in place, otherwise it frees that encoder
(`cleanup`) and calls `configure_with`, which sets `saved_desc` only when it succeeds.

`saved_desc` is a cache key, coherent along every run (`Coherent`): unless it is cleared, the
encoder in place, if any, is the one `configure_with` sets up from the settings in force for that
format. So every tile is encoded by the encoder a fresh `configure_with` gives for the settings
in force and the tile's own format, with the `in_frame_part` of the tile's own height. The key is
not cleared when `configure_with` fails after `cleanup`, so a later tile of the format configured
before meets the freed encoder (`Halt.freedEncoder`).

`configure_with` aborts on a subsampling its switch does not know. A rejected message still stores
its subsampling, so such a message makes the next tile abort; a run whose messages are all
accepted never aborts.

## Main definitions

* `Compressor`, `compressInit`, `checkMessages`, `compressTile`, `compressRun`: the compressor.
* `Coherent`: `saved_desc` agrees with the encoder in place.

## Main statements

* `compressTile_coherent`, `compressRun_coherent`: every tile keeps `Coherent`.
-/

namespace UltraGrid.VideoCompress

/-! ### The compressor -/

/-- The libavcodec compressor between two tiles: the settings, `saved_desc`, the encoder
`configure_with` set up (`none` before the first tile and once `cleanup` has freed it), and
`cpu_count`, which `libavcodec_compress_init` makes at least one. -/
structure Compressor where
  settings : Settings
  savedDesc : VideoDesc
  encoder : Option Encoder
  cpuCount : Nat
  cpuCount_pos : 0 < cpuCount

/-- What `libavcodec_compress_init` returns: the module, `&compress_init_noerr` after `help`, or
`NULL`. -/
inductive InitResult where
  | ok (c : Compressor)
  | noerr
  | fail

/-- `libavcodec_compress_init` with the configuration `cfg`, where
`thread::hardware_concurrency()` is `hw`. -/
def compressInit (lib : OptionLib) (hw : Nat) (cfg : List Char) : InitResult :=
  let (s, ret) := parseFmt lib initSettings cfg
  if ret = 0 then .ok ⟨s, .zero, none, max hw 1, by omega⟩
  else if 0 < ret then .noerr else .fail

/-- `libavcodec_check_messages` with the `config_string`s of the pending messages: each is
parsed into the live settings, whatever `parse_fmt` returns, and clears `saved_desc`. -/
def checkMessages (lib : OptionLib) (c : Compressor) : List (List Char) → Compressor
  | [] => c
  | m :: msgs =>
    checkMessages lib { c with settings := (parseFmt lib c.settings m).1, savedDesc := .zero } msgs

/-- Where `libavcodec_compress_tile` stops the program: `abort()` in `configure_with` or in
`select_pixfmt_callback`, or a tile encoded through the encoder `cleanup` freed (`s->in_frame`
is `NULL`, or its planes are freed), which is undefined. -/
inductive Halt where
  | abort
  | freedEncoder
  deriving DecidableEq, Repr

/-- The conversion tasks of a tile of format `d` for the encoder `e`, with the compressor `c`
after the tile. -/
def encodeTile (c : Compressor) (e : Encoder) (d : VideoDesc) :
    Except Halt (Compressor × Option (Encoder × List MyTaskData)) :=
  match compressTileTasks e.pixFmt d.width d.height c.cpuCount with
  | none => .error .abort
  | some tasks => .ok (c, some (e, tasks))

/-- `libavcodec_compress_tile` after `libavcodec_check_messages`, on a tile of format `d`: the
compressor after it and, for a tile that is encoded, the encoder and the conversion tasks. -/
def compressTileWith (env : Env) (c : Compressor) (d : VideoDesc) :
    Except Halt (Compressor × Option (Encoder × List MyTaskData)) :=
  if videoDescEqExclParam d c.savedDesc then
    match c.encoder with
    | some e => encodeTile c e d
    | none => .error .freedEncoder
  else
    match configureWithDesc env c.settings c.cpuCount d with
    | .abort => .error .abort
    | .fail => .ok ({ c with encoder := none }, none)
    | .ok e => encodeTile { c with savedDesc := d, encoder := some e } e d

/-- `libavcodec_compress_tile` on a tile of format `d`, with the messages `msgs` pending. -/
def compressTile (env : Env) (lib : OptionLib) (c : Compressor) (msgs : List (List Char))
    (d : VideoDesc) : Except Halt (Compressor × Option (Encoder × List MyTaskData)) :=
  compressTileWith env (checkMessages lib c msgs) d

/-- The compressor over a stream of tiles, each with the messages that arrived before it: the
compressor after them, and for each tile the encoder and the tasks, or `none` if it is dropped. -/
def compressRun (env : Env) (lib : OptionLib) (c : Compressor) :
    List (List (List Char) × VideoDesc) →
      Except Halt (Compressor × List (Option (Encoder × List MyTaskData)))
  | [] => .ok (c, [])
  | (msgs, d) :: tiles =>
    match compressTile env lib c msgs d with
    | .error h => .error h
    | .ok (c', out) => (compressRun env lib c' tiles).map fun r => (r.1, out :: r.2)

@[simp] theorem checkMessages_nil (lib : OptionLib) (c : Compressor) :
    checkMessages lib c [] = c := rfl

@[simp] theorem checkMessages_encoder (lib : OptionLib) (msgs : List (List Char)) :
    ∀ c, (checkMessages lib c msgs).encoder = c.encoder := by
  induction msgs with
  | nil => exact fun _ => rfl
  | cons m msgs ih => exact fun c => ih _

@[simp] theorem checkMessages_cpuCount (lib : OptionLib) (msgs : List (List Char)) :
    ∀ c, (checkMessages lib c msgs).cpuCount = c.cpuCount := by
  induction msgs with
  | nil => exact fun _ => rfl
  | cons m msgs ih => exact fun c => ih _

theorem checkMessages_savedDesc (lib : OptionLib) {msgs : List (List Char)} (h : msgs ≠ []) :
    ∀ c, (checkMessages lib c msgs).savedDesc = .zero := by
  induction msgs with
  | nil => exact absurd rfl h
  | cons m msgs ih =>
    intro c
    cases msgs with
    | nil => rfl
    | cons m' msgs => exact ih (List.cons_ne_nil _ _) _

/-- The settings after the messages are those `parse_fmt` leaves, one message after another. -/
theorem checkMessages_settings (lib : OptionLib) (msgs : List (List Char)) :
    ∀ c, (checkMessages lib c msgs).settings =
      msgs.foldl (fun s m => (parseFmt lib s m).1) c.settings := by
  induction msgs with
  | nil => exact fun _ => rfl
  | cons m msgs ih => exact fun c => ih _

theorem checkMessages_sticky (lib : OptionLib) (msgs : List (List Char)) :
    ∀ c : Compressor, c.settings.Sticky (checkMessages lib c msgs).settings := by
  induction msgs with
  | nil => exact fun c => Settings.Sticky.refl _
  | cons m msgs ih =>
    exact fun c => (parseFmt_sticky lib c.settings m).trans
      (ih { c with settings := (parseFmt lib c.settings m).1, savedDesc := .zero })

/-- What one tile can do, once the messages are handled: encode with the encoder in place, whose
format is the tile's; configure for the tile and encode; or fail to configure, free the encoder and
drop the tile. -/
theorem compressTileWith_eq_ok {env : Env} {c c' : Compressor} {d : VideoDesc}
    {out : Option (Encoder × List MyTaskData)} (h : compressTileWith env c d = .ok (c', out)) :
    (d = c.savedDesc ∧ ∃ e tasks, c.encoder = some e ∧ c' = c ∧ out = some (e, tasks) ∧
        compressTileTasks e.pixFmt d.width d.height c.cpuCount = some tasks) ∨
      (d ≠ c.savedDesc ∧ ∃ e tasks, configureWithDesc env c.settings c.cpuCount d = .ok e ∧
        c' = { c with savedDesc := d, encoder := some e } ∧ out = some (e, tasks) ∧
        compressTileTasks e.pixFmt d.width d.height c.cpuCount = some tasks) ∨
      (d ≠ c.savedDesc ∧ configureWithDesc env c.settings c.cpuCount d = .fail ∧
        c' = { c with encoder := none } ∧ out = none) := by
  unfold compressTileWith videoDescEqExclParam at h
  split at h
  · rename_i heq
    have hd : d = c.savedDesc := by simpa using heq
    split at h
    · rename_i e he
      unfold encodeTile at h
      split at h
      · cases h
      · rename_i tasks ht
        cases h
        exact .inl ⟨hd, e, tasks, he, rfl, rfl, ht⟩
    · cases h
  · rename_i hne
    have hd : d ≠ c.savedDesc := by simpa using hne
    split at h
    · cases h
    · rename_i hc
      cases h
      exact .inr (.inr ⟨hd, hc, rfl, rfl⟩)
    · rename_i e hc
      unfold encodeTile at h
      split at h
      · cases h
      · rename_i tasks ht
        cases h
        exact .inr (.inl ⟨hd, e, tasks, hc, rfl, rfl, ht⟩)

/-- What `libavcodec_compress_init` sets up when it keeps the module. -/
theorem compressInit_eq_ok {lib : OptionLib} {hw : Nat} {cfg : List Char} {c : Compressor}
    (h : compressInit lib hw cfg = .ok c) :
    (parseFmt lib initSettings cfg).2 = 0 ∧ c.settings = (parseFmt lib initSettings cfg).1 ∧
      c.savedDesc = .zero ∧ c.encoder = none := by
  unfold compressInit at h
  split at h
  rename_i s ret hp
  split_ifs at h with h0
  cases h
  exact ⟨by rw [hp, h0], by rw [hp], rfl, rfl⟩

/-- A tile leaves the settings as the messages left them, and `cpu_count` as it was. -/
theorem compressTile_settings {env : Env} {lib : OptionLib} {c c' : Compressor}
    {msgs : List (List Char)} {d : VideoDesc} {out : Option (Encoder × List MyTaskData)}
    (h : compressTile env lib c msgs d = .ok (c', out)) :
    c'.settings = (checkMessages lib c msgs).settings ∧ c'.cpuCount = c.cpuCount := by
  rcases compressTileWith_eq_ok h with ⟨-, -, -, -, rfl, -⟩ | ⟨-, -, -, -, rfl, -⟩ | ⟨-, -, rfl, -⟩ <;>
    simp

/-- What every tile keeps, every run keeps. -/
theorem compressRun_induction {env : Env} {lib : OptionLib} (P : Compressor → Prop)
    (hstep : ∀ c msgs d c' out, P c → compressTile env lib c msgs d = .ok (c', out) → P c') :
    ∀ (tiles : List (List (List Char) × VideoDesc)) {c c' : Compressor}
      {outs : List (Option (Encoder × List MyTaskData))},
      P c → compressRun env lib c tiles = .ok (c', outs) → P c'
  | [], _, _, _, hc, h => by cases h; exact hc
  | (msgs, d) :: tiles, c, c', outs, hc, h => by
    unfold compressRun at h
    split at h
    · cases h
    · rename_i c₁ out h₁
      rcases hr : compressRun env lib c₁ tiles with _ | ⟨c₂, outs₂⟩ <;> rw [hr] at h <;> cases h
      exact compressRun_induction P hstep tiles (hstep c msgs d c₁ out hc h₁) hr

/-! ### An environment -/

/-- A libavcodec with one encoder, for MJPEG, which takes 4:2:2; one format in each list, and a
`get_best_pix_fmt` that takes the first requested format the encoder takes. -/
def mjpegEnv : Env where
  haveGpl := true
  findEncoderByName _ := none
  findEncoder id := if id = .mjpeg then some ⟨"mjpeg".toList, .mjpeg, [⟨.yuv422, false⟩]⟩ else none
  fmts420 := [⟨.yuv420, false⟩]
  fmts422 := [⟨.yuv422, false⟩]
  fmts444 := [⟨.yuv444, false⟩]
  getBestPixFmt req sup := req.find? (· ∈ sup)
  opens _ _ _ _ := true

/-- `get_codec_from_name` knowing `MJPEG` alone, and `unit_evaluate` and `atoi` on strings of
decimal digits. -/
def mjpegLib : OptionLib where
  getCodecFromName name := if name = "MJPEG".toList then .mjpg else .none
  unitEvaluate value := value.foldl (fun n c => 10 * n + ((c.toNat : Int) - 48)) 0
  atoi value := value.foldl (fun n c => 10 * n + ((c.toNat : Int) - 48)) 0

/-! ### `saved_desc` as a cache key -/

/-- `saved_desc` agrees with the encoder in place: unless it is cleared, that encoder, if any, is
the one `configure_with` sets up from the settings for that format. -/
def Coherent (env : Env) (c : Compressor) : Prop :=
  c.savedDesc ≠ .zero → ∀ e, c.encoder = some e →
    configureWithDesc env c.settings c.cpuCount c.savedDesc = .ok e

theorem compressInit_coherent {lib : OptionLib} {hw : Nat} {cfg : List Char} {c : Compressor}
    (env : Env) (h : compressInit lib hw cfg = .ok c) : Coherent env c :=
  fun hz => absurd (compressInit_eq_ok h).2.2.1 hz

theorem checkMessages_coherent {env : Env} (lib : OptionLib) {c : Compressor}
    (msgs : List (List Char)) (h : Coherent env c) : Coherent env (checkMessages lib c msgs) := by
  cases msgs with
  | nil => exact h
  | cons m msgs => exact fun hz => absurd (checkMessages_savedDesc lib (List.cons_ne_nil _ _) c) hz

/-- Every tile keeps `saved_desc` coherent, and a tile of a format other than the cleared one
that is encoded is encoded by the encoder `configure_with` sets up from the settings in force for
the tile's format, with the tasks for the tile. -/
theorem compressTile_coherent {env : Env} {lib : OptionLib} {c c' : Compressor}
    {msgs : List (List Char)} {d : VideoDesc} {out : Option (Encoder × List MyTaskData)}
    (hc : Coherent env c) (h : compressTile env lib c msgs d = .ok (c', out)) :
    Coherent env c' ∧
      ∀ e tasks, out = some (e, tasks) → d ≠ .zero →
        configureWithDesc env c'.settings c.cpuCount d = .ok e ∧
          compressTileTasks e.pixFmt d.width d.height c.cpuCount = some tasks := by
  have hm := checkMessages_coherent lib msgs hc
  have hn := checkMessages_cpuCount lib msgs c
  rcases compressTileWith_eq_ok h with
    ⟨rfl, e, tasks, he, rfl, rfl, ht⟩ | ⟨-, e, tasks, hconf, rfl, rfl, ht⟩ | ⟨-, -, rfl, rfl⟩
  · refine ⟨hm, ?_⟩
    rintro e' tasks' ⟨⟩ hz
    rw [← hn]
    exact ⟨hm hz e he, ht⟩
  · refine ⟨fun _ e' he' => ?_, fun e' tasks' he' _ => ?_⟩ <;> cases he'
    · exact hconf
    · rw [← hn]
      exact ⟨hconf, ht⟩
  · exact ⟨fun _ e' he' => (by cases he'), fun _ _ he' => (by cases he')⟩

/-- Every run from `libavcodec_compress_init` keeps `saved_desc` coherent and `cpu_count` at
`max hw 1`. -/
theorem compressRun_coherent {env : Env} {lib : OptionLib} {hw : Nat} {cfg : List Char}
    {c₀ c : Compressor} {tiles : List (List (List Char) × VideoDesc)}
    {outs : List (Option (Encoder × List MyTaskData))} (hinit : compressInit lib hw cfg = .ok c₀)
    (hrun : compressRun env lib c₀ tiles = .ok (c, outs)) :
    Coherent env c ∧ c.cpuCount = c₀.cpuCount :=
  compressRun_induction (fun c => Coherent env c ∧ c.cpuCount = c₀.cpuCount)
    (fun _ _ _ _ _ hc h => ⟨(compressTile_coherent hc.1 h).1,
      (compressTile_settings h).2.trans hc.2⟩)
    tiles ⟨compressInit_coherent env hinit, rfl⟩ hrun

/-- The encoder and the tasks of a tile encoded after a run from `libavcodec_compress_init`, unless
its format is the cleared one. -/
theorem encoded_configureWithDesc {env : Env} {lib : OptionLib} {hw : Nat} {cfg : List Char}
    {c₀ c c' : Compressor} {tiles : List (List (List Char) × VideoDesc)}
    {outs : List (Option (Encoder × List MyTaskData))} {msgs : List (List Char)} {d : VideoDesc}
    {e : Encoder} {tasks : List MyTaskData} (hinit : compressInit lib hw cfg = .ok c₀)
    (hrun : compressRun env lib c₀ tiles = .ok (c, outs)) (hd : d ≠ .zero)
    (htile : compressTile env lib c msgs d = .ok (c', some (e, tasks))) :
    configureWithDesc env c'.settings c.cpuCount d = .ok e ∧
      compressTileTasks e.pixFmt d.width d.height c.cpuCount = some tasks :=
  (compressTile_coherent (compressRun_coherent hinit hrun).1 htile).2 e tasks rfl hd

/-- Every tile of every run from `libavcodec_compress_init` that is encoded, unless its format is
the cleared one, is encoded by the encoder a fresh `configure_with` sets up from the settings in
force, those the messages so far left, for the tile's own format: the `in_frame_part` for the
tile's own height and `cpu_count`, and the tasks of that tile. The `saved_desc` shortcut never
hands a tile to an encoder set up for other settings or another format. -/
theorem compressRun_encodes_configured {env : Env} {lib : OptionLib} {hw : Nat}
    {cfg : List Char} {c₀ c c' : Compressor} {tiles : List (List (List Char) × VideoDesc)}
    {outs : List (Option (Encoder × List MyTaskData))} {msgs : List (List Char)} {d : VideoDesc}
    {e : Encoder} {tasks : List MyTaskData} (hinit : compressInit lib hw cfg = .ok c₀)
    (hrun : compressRun env lib c₀ tiles = .ok (c, outs)) (hd : d ≠ .zero)
    (htile : compressTile env lib c msgs d = .ok (c', some (e, tasks))) :
    configureWithDesc env c'.settings c.cpuCount d = .ok e ∧
      e.parts = configureWith e.pixFmt d.height c.cpuCount ∧
      compressTileTasks e.pixFmt d.width d.height c.cpuCount = some tasks := by
  obtain ⟨hconf, ht⟩ := encoded_configureWithDesc hinit hrun hd htile
  exact ⟨hconf, (configureWithDesc_eq_ok hconf).choose_spec.2.2.2.2, ht⟩

/-- The first tile of a compressor started without options, in UYVY, four pixels wide and two rows
high, goes to the MJPEG encoder. -/
theorem compressRun_encodes_configured_uyvy :
    ∃ c₀ c' e tasks, compressInit mjpegLib 1 [] = .ok c₀ ∧
      compressTile mjpegEnv mjpegLib c₀ [] ⟨4, 2, .uyvy, .progressive⟩ =
        .ok (c', some (e, tasks)) ∧
      configureWithDesc mjpegEnv c'.settings c₀.cpuCount ⟨4, 2, .uyvy, .progressive⟩ = .ok e ∧
      e.parts = configureWith e.pixFmt 2 c₀.cpuCount ∧
      compressTileTasks e.pixFmt 4 2 c₀.cpuCount = some tasks :=
  ⟨_, _, _, _, rfl, rfl,
    @compressRun_encodes_configured mjpegEnv mjpegLib 1 [] _ _ _ [] [] []
      ⟨4, 2, .uyvy, .progressive⟩ _ _ rfl rfl (by decide) rfl⟩

/-- The codec of every tile a run encodes, unless its format is the cleared one, is the codec the
settings in force ask for; with none asked for, that of the encoder asked for, or else
`DEFAULT_CODEC`. It has an entry in `codec_params`. After a message whose codec name
`get_codec_from_name` does not know, which `parse_fmt` rejects but stores as `VIDEO_CODEC_NONE`,
the compressor falls back to the default codec. -/
theorem compressRun_outCodec {env : Env} {lib : OptionLib} {hw : Nat}
    {cfg : List Char} {c₀ c c' : Compressor} {tiles : List (List (List Char) × VideoDesc)}
    {outs : List (Option (Encoder × List MyTaskData))} {msgs : List (List Char)} {d : VideoDesc}
    {e : Encoder} {tasks : List MyTaskData} (hinit : compressInit lib hw cfg = .ok c₀)
    (hrun : compressRun env lib c₀ tiles = .ok (c, outs)) (hd : d ≠ .zero)
    (htile : compressTile env lib c msgs d = .ok (c', some (e, tasks))) :
    (codecParams e.outCodec).isSome ∧
      (c'.settings.requestedCodecId ≠ .none → e.outCodec = c'.settings.requestedCodecId) ∧
      (c'.settings.requestedCodecId = .none →
        e.outCodec = if c'.settings.backend.isEmpty then defaultCodec
          else getUgForAvCodec e.codec.id) := by
  obtain ⟨fmts, hsel, -⟩ := configureWithDesc_eq_ok (encoded_configureWithDesc hinit hrun hd htile).1
  obtain ⟨hp, hreq, hug⟩ := selectEncoder_eq_some hsel
  exact ⟨hp, hreq, fun hn => by simpa [hn] using hug⟩

/-- A tile after the message `codec=x264`, which `parse_fmt` rejects, goes out as MJPEG. -/
theorem compressRun_outCodec_rejected :
    ∃ c₀ c' e tasks, compressInit mjpegLib 1 "codec=MJPEG".toList = .ok c₀ ∧
      compressTile mjpegEnv mjpegLib c₀ ["codec=x264".toList] ⟨4, 2, .uyvy, .progressive⟩ =
        .ok (c', some (e, tasks)) ∧
      (codecParams e.outCodec).isSome ∧
      (c'.settings.requestedCodecId ≠ .none → e.outCodec = c'.settings.requestedCodecId) ∧
      (c'.settings.requestedCodecId = .none →
        e.outCodec = if c'.settings.backend.isEmpty then defaultCodec
          else getUgForAvCodec e.codec.id) :=
  ⟨_, _, _, _, rfl, rfl,
    @compressRun_outCodec mjpegEnv mjpegLib 1 "codec=MJPEG".toList _ _ _ [] []
      ["codec=x264".toList] ⟨4, 2, .uyvy, .progressive⟩ _ _ rfl rfl (by decide) rfl⟩

/-- With format lists of the subsampling their names say and a `get_best_pix_fmt` that returns a
requested format, every tile a run encodes, unless its format is the cleared one, is encoded in
the subsampling the settings in force ask for, and in NV12 by NVENC when none is asked for. -/
theorem compressRun_pixFmt {env : Env} {lib : OptionLib} {hw : Nat}
    {cfg : List Char} {c₀ c c' : Compressor} {tiles : List (List (List Char) × VideoDesc)}
    {outs : List (Option (Encoder × List MyTaskData))} {msgs : List (List Char)} {d : VideoDesc}
    {e : Encoder} {tasks : List MyTaskData}
    (h420 : ∀ f ∈ env.fmts420, f.subsampling = .yuv420)
    (h422 : ∀ f ∈ env.fmts422, f.subsampling = .yuv422)
    (h444 : ∀ f ∈ env.fmts444, f.subsampling = .yuv444)
    (hbest : ∀ req sup f, env.getBestPixFmt req sup = some f → f ∈ req)
    (hinit : compressInit lib hw cfg = .ok c₀)
    (hrun : compressRun env lib c₀ tiles = .ok (c, outs)) (hd : d ≠ .zero)
    (htile : compressTile env lib c msgs d = .ok (c', some (e, tasks))) :
    (c'.settings.requestedSubsampling = 420 → e.pixFmt.subsampling = .yuv420) ∧
      (c'.settings.requestedSubsampling = 422 → e.pixFmt.subsampling = .yuv422) ∧
      (c'.settings.requestedSubsampling = 444 → e.pixFmt.subsampling = .yuv444) ∧
      (c'.settings.requestedSubsampling = 0 → e.codec.name = "nvenc".toList → e.pixFmt = nv12) := by
  obtain ⟨fmts, hreq, hmem⟩ :=
    configureWithDesc_pixFmt_mem hbest (encoded_configureWithDesc hinit hrun hd htile).1
  obtain ⟨e420, e422, e444, env12⟩ := requestedPixFmts_eq hreq
  refine ⟨fun hs => h420 _ ?_, fun hs => h422 _ ?_, fun hs => h444 _ ?_, fun hs hn => ?_⟩
  · rwa [← e420 hs]
  · rwa [← e422 hs]
  · rwa [← e444 hs]
  · simpa [env12 hs hn] using hmem

/-- A compressor started with `subsampling=422` encodes in 4:2:2. -/
theorem compressRun_pixFmt_422 :
    ∃ c₀ c' e tasks, compressInit mjpegLib 1 "subsampling=422".toList = .ok c₀ ∧
      compressTile mjpegEnv mjpegLib c₀ [] ⟨4, 2, .uyvy, .progressive⟩ =
        .ok (c', some (e, tasks)) ∧
      (c'.settings.requestedSubsampling = 420 → e.pixFmt.subsampling = .yuv420) ∧
      (c'.settings.requestedSubsampling = 422 → e.pixFmt.subsampling = .yuv422) ∧
      (c'.settings.requestedSubsampling = 444 → e.pixFmt.subsampling = .yuv444) ∧
      (c'.settings.requestedSubsampling = 0 → e.codec.name = "nvenc".toList → e.pixFmt = nv12) :=
  ⟨_, _, _, _, rfl, rfl,
    @compressRun_pixFmt mjpegEnv mjpegLib 1 "subsampling=422".toList _ _ _ [] [] []
      ⟨4, 2, .uyvy, .progressive⟩ _ _
      (by decide) (by decide) (by decide) (fun _ _ _ h => List.mem_of_find?_eq_some h) rfl rfl
      (by decide) rfl⟩

/-! ### Aborts -/

/-- What keeps a tile from aborting: a subsampling `configure_with` knows, and an encoder in
place, if any, in a format `select_pixfmt_callback` knows. -/
def Safe (c : Compressor) : Prop :=
  c.settings.SubsamplingOk ∧ ∀ e, c.encoder = some e → e.pixFmt.subsampling ≠ .unknown

theorem encodeTile_ne_abort {e : Encoder} (c : Compressor) (d : VideoDesc)
    (h : e.pixFmt.subsampling ≠ .unknown) : encodeTile c e d ≠ .error .abort := by
  obtain ⟨cb, hcb⟩ := selectPixfmtCallback_ne_none h
  simp [encodeTile, compressTileTasks_eq d.width d.height c.cpuCount hcb]

theorem checkMessages_subsamplingOk (lib : OptionLib) {msgs : List (List Char)}
    (hmsgs : ∀ m ∈ msgs, (parseFmt lib initSettings m).2 ≠ -1) :
    ∀ c : Compressor, c.settings.SubsamplingOk → (checkMessages lib c msgs).settings.SubsamplingOk := by
  induction msgs with
  | nil => exact fun _ h => h
  | cons m msgs ih =>
    intro c h
    refine ih (fun m' hm' => hmsgs m' (List.mem_cons_of_mem _ hm')) _ (parseFmt_subsamplingOk h ?_)
    rw [parseFmt_snd lib c.settings initSettings]
    exact hmsgs m (List.mem_cons_self _ _)

/-- From a safe compressor, a tile does not abort once the messages are handled, and leaves the
compressor safe. -/
theorem compressTileWith_safe {env : Env}
    (hfmts : ∀ f ∈ env.fmts420 ++ env.fmts422 ++ env.fmts444, f.subsampling ≠ .unknown)
    (hbest : ∀ req sup f, env.getBestPixFmt req sup = some f → f ∈ req) {c : Compressor}
    (d : VideoDesc) (hs : Safe c) :
    compressTileWith env c d ≠ .error .abort ∧
      ∀ c' out, compressTileWith env c d = .ok (c', out) → Safe c' := by
  constructor
  · intro h
    unfold compressTileWith at h
    split at h
    · split at h
      · rename_i e he
        exact encodeTile_ne_abort c d (hs.2 e he) h
      · cases h
    · split at h
      · rename_i hab
        exact (configureWithDesc_eq_abort_iff.1 hab).2 hs.1
      · cases h
      · rename_i e he
        exact encodeTile_ne_abort _ d (configureWithDesc_subsampling_ne_unknown hfmts hbest he) h
  · intro c' out h
    rcases compressTileWith_eq_ok h with
      ⟨-, -, -, -, rfl, -⟩ | ⟨-, e, -, hconf, rfl, -⟩ | ⟨-, -, rfl, -⟩
    · exact hs
    · exact ⟨hs.1, fun e' he' => by
        cases he'
        exact configureWithDesc_subsampling_ne_unknown hfmts hbest hconf⟩
    · exact ⟨hs.1, fun e' he' => by cases he'⟩

/-- From a safe compressor, a tile whose messages `parse_fmt` accepts does not abort, and leaves
the compressor safe. -/
theorem compressTile_safe {env : Env} {lib : OptionLib}
    (hfmts : ∀ f ∈ env.fmts420 ++ env.fmts422 ++ env.fmts444, f.subsampling ≠ .unknown)
    (hbest : ∀ req sup f, env.getBestPixFmt req sup = some f → f ∈ req) {c : Compressor}
    {msgs : List (List Char)} (d : VideoDesc) (hs : Safe c)
    (hmsgs : ∀ m ∈ msgs, (parseFmt lib initSettings m).2 ≠ -1) :
    compressTile env lib c msgs d ≠ .error .abort ∧
      ∀ c' out, compressTile env lib c msgs d = .ok (c', out) → Safe c' :=
  compressTileWith_safe hfmts hbest d
    ⟨checkMessages_subsamplingOk lib hmsgs c hs.1, by simpa using hs.2⟩

theorem compressRun_ne_abort_of_safe {env : Env} {lib : OptionLib}
    (hfmts : ∀ f ∈ env.fmts420 ++ env.fmts422 ++ env.fmts444, f.subsampling ≠ .unknown)
    (hbest : ∀ req sup f, env.getBestPixFmt req sup = some f → f ∈ req) :
    ∀ (tiles : List (List (List Char) × VideoDesc)) {c : Compressor}, Safe c →
      (∀ t ∈ tiles, ∀ m ∈ t.1, (parseFmt lib initSettings m).2 ≠ -1) →
      compressRun env lib c tiles ≠ .error .abort
  | [], _, _, _ => by simp [compressRun]
  | (msgs, d) :: tiles, c, hs, hmsgs => by
    obtain ⟨hna, hsafe⟩ := compressTile_safe hfmts hbest d hs (hmsgs _ (List.mem_cons_self _ _))
    have ih := fun c' => @compressRun_ne_abort_of_safe env lib hfmts hbest tiles c'
    unfold compressRun
    split
    · rename_i h e
      rintro ⟨⟩
      exact hna e
    · rename_i c' out e
      have := ih c' (hsafe c' out e) fun t ht => hmsgs t (List.mem_cons_of_mem _ ht)
      intro he
      rcases hr : compressRun env lib c' tiles with h' | r <;> rw [hr] at he this
      · cases he
        exact this rfl
      · cases he

/-- With format lists of known subsamplings and a `get_best_pix_fmt` that returns a requested
format, a run from `libavcodec_compress_init` whose messages `parse_fmt` all accepts never
aborts. -/
theorem compressRun_ne_abort {env : Env} {lib : OptionLib} {hw : Nat} {cfg : List Char}
    {c : Compressor}
    (hfmts : ∀ f ∈ env.fmts420 ++ env.fmts422 ++ env.fmts444, f.subsampling ≠ .unknown)
    (hbest : ∀ req sup f, env.getBestPixFmt req sup = some f → f ∈ req)
    (hinit : compressInit lib hw cfg = .ok c) (tiles : List (List (List Char) × VideoDesc))
    (hmsgs : ∀ t ∈ tiles, ∀ m ∈ t.1, (parseFmt lib initSettings m).2 ≠ -1) :
    compressRun env lib c tiles ≠ .error .abort := by
  obtain ⟨h0, hs, -, he⟩ := compressInit_eq_ok hinit
  refine compressRun_ne_abort_of_safe hfmts hbest tiles ⟨?_, by simp [he]⟩ hmsgs
  rw [hs]
  exact parseFmt_subsamplingOk (Or.inl rfl) (by rw [h0]; decide)

/-- A run of the MJPEG environment whose messages are accepted does not abort. -/
theorem compressRun_ne_abort_mjpeg :
    compressRun mjpegEnv mjpegLib ⟨initSettings, .zero, none, 1, Nat.one_pos⟩
      [(["subsampling=422".toList], ⟨4, 2, .uyvy, .progressive⟩), ([], ⟨4, 2, .rgb, .progressive⟩)] ≠
      .error .abort :=
  @compressRun_ne_abort mjpegEnv mjpegLib 1 [] _ (by decide)
    (fun _ _ _ h => List.mem_of_find?_eq_some h) rfl _ (by decide)

/-- No run turns Periodic Intra Refresh back on or drops a preset once given: no option of any
message, accepted or rejected, clears `no_periodic_intra` or `preset`. -/
theorem compressRun_sticky {env : Env} {lib : OptionLib} {c c' : Compressor}
    {tiles : List (List (List Char) × VideoDesc)} {outs : List (Option (Encoder × List MyTaskData))}
    (h : compressRun env lib c tiles = .ok (c', outs)) : c.settings.Sticky c'.settings :=
  compressRun_induction (fun c' => c.settings.Sticky c'.settings)
    (fun c₁ msgs _ c₂ _ hc h₁ => by
      show c.settings.Sticky c₂.settings
      rw [(compressTile_settings h₁).1]
      exact hc.trans (checkMessages_sticky lib msgs c₁))
    tiles (Settings.Sticky.refl _) h

/-- A run with the message `disable_intra_refresh`. -/
theorem compressRun_sticky_intraRefresh :
    ∃ c' outs, compressRun mjpegEnv mjpegLib ⟨initSettings, .zero, none, 1, Nat.one_pos⟩
        [(["disable_intra_refresh".toList], ⟨4, 2, .uyvy, .progressive⟩)] = .ok (c', outs) ∧
      c'.settings.noPeriodicIntra = true ∧ initSettings.Sticky c'.settings :=
  ⟨_, _, rfl, rfl, @compressRun_sticky mjpegEnv mjpegLib ⟨initSettings, .zero, none, 1, Nat.one_pos⟩
    _ [(["disable_intra_refresh".toList], ⟨4, 2, .uyvy, .progressive⟩)] _ rfl⟩

end UltraGrid.VideoCompress
