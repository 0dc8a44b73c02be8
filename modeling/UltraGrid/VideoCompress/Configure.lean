import Mathlib.Data.List.Nodup
import UltraGrid.VideoCompress.Libavcodec
import UltraGrid.VideoCompress.Options

/-!
# `configure_with`: the output codec, the encoder and the pixel format

`configure_with` sets the libavcodec compressor up for a tile format. It takes the codec asked
for with `codec=`, or the codec of the encoder asked for with `encoder=`, or `DEFAULT_CODEC`, and
checks it against `codec_params` (`selectEncoder`); it then opens the encoder asked for, or the
preferred encoder of the codec, or any encoder of libavcodec for it. It requests the pixel formats
of the subsampling asked for, or with none asked for those of every subsampling in an order that
depends on the interlacing, and NV12 alone for NVENC (`requestedPixFmts`); an unknown subsampling
is an `abort()`. `get_best_pix_fmt` picks the format, and the switch on `color_spec` the line
decoder. It returns `false` at the first step that fails.

The output codec is the one asked for, or the encoder's, or `DEFAULT_CODEC`, and it always has an
entry of `codec_params` (`selectEncoder_eq_some`). `configure_with` aborts exactly when the
choice of the encoder succeeds with an unknown subsampling (`configureWithDesc_eq_abort_iff`).

`fps` and `tile_count` of the formats, `bit_rate` and `avg_bpp`, `time_base` and `max_b_frames`
are left out: they only feed libavcodec. The preset and the `set_param` call are in `Setparam`.
What `configure_with` reads outside the sources is `Env`.

## Main definitions

* `VideoDesc`, `codecParams`, `getUgForAvCodec`, `Env`: the formats, the codec table and what
  lies outside the sources.
* `selectEncoder`, `requestedPixFmts`, `decoderFor`, `configureWithDesc`: `configure_with`.

## Main statements

* `selectEncoder_eq_some`: the output codec.
* `configureWithDesc_eq_ok`, `configureWithDesc_eq_abort_iff`: how `configure_with` ends.
-/

namespace UltraGrid.VideoCompress

/-! ### Formats and codecs -/

/-- The `interlacing_t` of a `video_desc`. -/
inductive Interlacing where
  | progressive | upperFieldFirst | lowerFieldFirst | interlacedMerged | segmentedFrame
  deriving DecidableEq, Repr

/-- A `video_desc` with the fields `configure_with` reads: the size, `color_spec` and the
interlacing. -/
structure VideoDesc where
  width : Nat
  height : Nat
  colorSpec : Codec
  interlacing : Interlacing
  deriving DecidableEq, Repr

/-- A `video_desc` cleared by `memset`. -/
def VideoDesc.zero : VideoDesc := ⟨0, 0, .none, .progressive⟩

/-- `video_desc_eq_excl_param(a, b, PARAM_TILE_COUNT)` on the fields kept. -/
def videoDescEqExclParam (a b : VideoDesc) : Bool := a == b

/-- The `AVCodecID`s of `codec_params`, `AV_CODEC_ID_NONE`, and any other by its number. -/
inductive AvCodecId where
  | none | h264 | hevc | mjpeg | jpeg2000 | vp8
  | other (id : Nat)
  deriving DecidableEq, Repr

/-- The `set_param` function of an entry of `codec_params`. -/
inductive SetParam where
  | default | h264 | h265 | vp8
  deriving DecidableEq, Repr

/-- An entry `codec_params_t` of `codec_params`, without its `avg_bpp`. -/
structure CodecParams where
  avCodec : AvCodecId
  preferedEncoder : Option (List Char)
  setParam : SetParam
  deriving DecidableEq, Repr

/-- `codec_params` without the `avg_bpp` of each codec, in the order of its initializer. -/
def codecParamsTable : List (Codec × CodecParams) :=
  [(.h264, ⟨.h264, some "libx264".toList, .h264⟩),
   (.h265, ⟨.hevc, some "libx265".toList, .h265⟩),
   (.mjpg, ⟨.mjpeg, none, .default⟩),
   (.j2k, ⟨.jpeg2000, none, .default⟩),
   (.vp8, ⟨.vp8, none, .vp8⟩)]

/-- `codec_params.find(c)`. -/
def codecParams (c : Codec) : Option CodecParams := codecParamsTable.lookup c

/-- `get_ug_for_av_codec`: the codec whose entry has the `AVCodecID` `id`, or
`VIDEO_CODEC_NONE`. The `unordered_map` is walked in an order the source does not fix; the
entries have distinct `AVCodecID`s (`codecParams_avCodec_inj`), so every order finds the same
codec. -/
def getUgForAvCodec (id : AvCodecId) : Codec :=
  ((codecParamsTable.find? fun e => e.2.avCodec == id).map Prod.fst).getD .none

/-- `DEFAULT_CODEC`. -/
def defaultCodec : Codec := .mjpg

/-- `DEFAULT_GOP_SIZE`. -/
def defaultGopSize : Int := 20

/-- `AV_PIX_FMT_NV12`. -/
def nv12 : PixFmt := ⟨.yuv420, true⟩

/-- A libavcodec encoder as `configure_with` reads it: `name`, `id` and `pix_fmts`. -/
structure AvCodec where
  name : List Char
  id : AvCodecId
  pixFmts : List PixFmt
  deriving DecidableEq, Repr

/-- What `configure_with` reads outside the sources. -/
structure Env where
  /-- UltraGrid is built with `HAVE_GPL`. -/
  haveGpl : Bool
  /-- `avcodec_find_encoder_by_name`. -/
  findEncoderByName : List Char → Option AvCodec
  /-- `avcodec_find_encoder`. -/
  findEncoder : AvCodecId → Option AvCodec
  /-- The format list `fmts420`. -/
  fmts420 : List PixFmt
  /-- The format list `fmts422`. -/
  fmts422 : List PixFmt
  /-- The format list `fmts444`. -/
  fmts444 : List PixFmt
  /-- `get_best_pix_fmt`, `none` for `AV_PIX_FMT_NONE`. -/
  getBestPixFmt : List PixFmt → List PixFmt → Option PixFmt
  /-- The libavcodec calls after the choice of the pixel format succeed for the encoder, the
  format, the tile format and the preset: `avcodec_alloc_context3`, `av_opt_set` of the preset,
  `avcodec_open2`, `av_frame_alloc` and `av_image_alloc`. -/
  opens : AvCodec → PixFmt → VideoDesc → Option (List Char) → Bool

theorem codecParams_eq_some {c : Codec} {p : CodecParams} (h : codecParams c = some p) :
    (c, p) ∈ codecParamsTable := by
  cases c <;> cases h <;> decide

/-- The entries of `codec_params` have distinct `AVCodecID`s. -/
theorem codecParams_avCodec_inj {c c' : Codec} {p p' : CodecParams} (h : codecParams c = some p)
    (h' : codecParams c' = some p') (e : p.avCodec = p'.avCodec) : c = c' :=
  congrArg Prod.fst <| @List.inj_on_of_nodup_map _ _ (fun x => x.2.avCodec) _ (by decide)
    _ (codecParams_eq_some h) _ (codecParams_eq_some h') e

/-- A codec `get_ug_for_av_codec` finds has an entry. -/
theorem codecParams_getUgForAvCodec {id : AvCodecId} (h : getUgForAvCodec id ≠ .none) :
    (codecParams (getUgForAvCodec id)).isSome := by
  cases id with
  | other n => simp [getUgForAvCodec, codecParamsTable, List.find?_cons] at h
  | _ => revert h; decide

/-! ### `configure_with` -/

/-- The encoder asked for with `encoder=`, if any, as `configure_with` checks it; `none` where it
returns `false`: no encoder of that name, one for another codec than the one asked for, or one
for a codec UltraGrid does not know. -/
def namedEncoder (env : Env) (s : Settings) : Option (Option AvCodec) :=
  if s.backend.isEmpty then some none
  else match env.findEncoderByName s.backend with
    | none => none
    | some codec =>
      if s.requestedCodecId ≠ .none ∧ s.requestedCodecId ≠ getUgForAvCodec codec.id then none
      else if getUgForAvCodec codec.id = .none then none
      else some (some codec)

/-- The first part of `configure_with`: the output codec `ug_codec` and the encoder, or `none`
where it returns `false`. Without `HAVE_GPL` it refuses H.264, which its condition tests twice. -/
def selectEncoder (env : Env) (s : Settings) : Option (Codec × AvCodec) :=
  if !env.haveGpl && (s.requestedCodecId == .h264 || s.requestedCodecId == .h264) then none
  else do
    let named ← namedEncoder env s
    let ugCodec := match named with
      | some codec => getUgForAvCodec codec.id
      | none => if s.requestedCodecId = .none then defaultCodec else s.requestedCodecId
    let params ← codecParams ugCodec
    let codec ← named <|> params.preferedEncoder.bind env.findEncoderByName <|>
      env.findEncoder params.avCodec
    pure (ugCodec, codec)

/-- `requested_pix_fmts` up to its `AV_PIX_FMT_NONE`, for the encoder `codec` and a tile of
format `d`; `none` for the `abort()` of the switch on `requested_subsampling`. -/
def requestedPixFmts (env : Env) (s : Settings) (codec : AvCodec) (d : VideoDesc) :
    Option (List PixFmt) :=
  if s.requestedSubsampling = 0 then
    let fmts := if d.interlacing = .interlacedMerged then env.fmts422 ++ env.fmts444 ++ env.fmts420
      else env.fmts420 ++ env.fmts422 ++ env.fmts444
    some (if codec.name = "nvenc".toList then [nv12] else fmts)
  else if s.requestedSubsampling = 420 then some env.fmts420
  else if s.requestedSubsampling = 422 then some env.fmts422
  else if s.requestedSubsampling = 444 then some env.fmts444
  else none

/-- The line decoder `s->decoder`, which turns a row of the tile into UYVY. -/
inductive Decoder where
  | memcpy | copylineYUYV | copylinev210 | copylineRGBtoUYVY | copylineBGRtoUYVY
  | copylineRGBAtoUYVY
  deriving DecidableEq, Repr

/-- The switch of `configure_with` on `desc.color_spec`; `none` where it returns `false`. -/
def decoderFor : Codec → Option Decoder
  | .uyvy => some .memcpy
  | .yuyv => some .copylineYUYV
  | .v210 => some .copylinev210
  | .rgb => some .copylineRGBtoUYVY
  | .bgr => some .copylineBGRtoUYVY
  | .rgba => some .copylineRGBAtoUYVY
  | _ => none

/-- What a successful `configure_with` sets up: the encoder, `out_codec`, `selected_pixfmt`, the
`gop_size` of the codec context, `decoder` and `in_frame_part`. -/
structure Encoder where
  codec : AvCodec
  outCodec : Codec
  pixFmt : PixFmt
  gopSize : Int
  decoder : Decoder
  parts : List FramePart
  deriving DecidableEq, Repr

/-- How `configure_with` ends: `true` with what it set up, `false`, or `abort()`. -/
inductive Configured where
  | ok (e : Encoder)
  | fail
  | abort
  deriving DecidableEq, Repr

/-- `configure_with(s, desc)` with `cpu_count` tasks. -/
def configureWithDesc (env : Env) (s : Settings) (cpuCount : Nat) (d : VideoDesc) : Configured :=
  match selectEncoder env s with
  | none => .fail
  | some (ugCodec, codec) =>
    match requestedPixFmts env s codec d with
    | none => .abort
    | some fmts =>
      match env.getBestPixFmt fmts codec.pixFmts, decoderFor d.colorSpec with
      | some pixFmt, some decoder =>
        if env.opens codec pixFmt d s.preset then
          .ok ⟨codec, ugCodec, pixFmt, if s.requestedGop ≠ 0 then s.requestedGop else defaultGopSize,
            decoder, configureWith pixFmt d.height cpuCount⟩
        else .fail
      | _, _ => .fail

/-- The output codec and the encoder: `ug_codec` is the codec asked for, or the one of the
encoder asked for, or `DEFAULT_CODEC`, and it has an entry in `codec_params`. -/
theorem selectEncoder_eq_some {env : Env} {s : Settings} {ugCodec : Codec} {codec : AvCodec}
    (h : selectEncoder env s = some (ugCodec, codec)) :
    (codecParams ugCodec).isSome ∧
      (s.requestedCodecId ≠ .none → ugCodec = s.requestedCodecId) ∧
      ugCodec = if s.backend.isEmpty then
        (if s.requestedCodecId = .none then defaultCodec else s.requestedCodecId)
        else getUgForAvCodec codec.id := by
  unfold selectEncoder at h
  split at h
  · cases h
  simp only [Option.bind_eq_bind, Option.bind_eq_some, Option.some.injEq, Prod.mk.injEq] at h
  obtain ⟨named, hnamed, params, hparams, codec', hcodec, rfl, rfl⟩ := h
  unfold namedEncoder at hnamed
  split at hnamed
  · rename_i hb
    cases hnamed
    refine ⟨by simp [hparams], fun hr => by simp [hr], by simp [hb]⟩
  · rename_i hb
    split at hnamed
    · cases hnamed
    · rename_i codec₀ hfind
      split_ifs at hnamed with hreq hnone
      cases hnamed
      simp only [Option.some_orElse, Option.some.injEq] at hcodec
      subst hcodec
      refine ⟨codecParams_getUgForAvCodec hnone, fun hr => ?_, by simp [hb]⟩
      by_contra hne
      exact hreq ⟨hr, Ne.symm hne⟩

theorem requestedPixFmts_eq_none_iff {env : Env} {s : Settings} {codec : AvCodec}
    {d : VideoDesc} : requestedPixFmts env s codec d = none ↔ ¬ s.SubsamplingOk := by
  unfold requestedPixFmts Settings.SubsamplingOk
  split_ifs <;> simp_all

/-- A requested format comes from the three lists, or is NV12 for NVENC. -/
theorem mem_requestedPixFmts {env : Env} {s : Settings} {codec : AvCodec} {d : VideoDesc}
    {fmts : List PixFmt} (h : requestedPixFmts env s codec d = some fmts) {f : PixFmt}
    (hf : f ∈ fmts) : f ∈ env.fmts420 ++ env.fmts422 ++ env.fmts444 ∨ f = nv12 := by
  unfold requestedPixFmts at h
  split_ifs at h <;> cases h <;> simp_all
  -- interlaced, the same three lists in the order 4:2:2, 4:4:4, 4:2:0
  tauto

/-- A subsampling asked for gives its list alone; none asked for gives NV12 alone for NVENC. -/
theorem requestedPixFmts_eq {env : Env} {s : Settings} {codec : AvCodec} {d : VideoDesc}
    {fmts : List PixFmt} (h : requestedPixFmts env s codec d = some fmts) :
    (s.requestedSubsampling = 420 → fmts = env.fmts420) ∧
      (s.requestedSubsampling = 422 → fmts = env.fmts422) ∧
      (s.requestedSubsampling = 444 → fmts = env.fmts444) ∧
      (s.requestedSubsampling = 0 → codec.name = "nvenc".toList → fmts = [nv12]) := by
  unfold requestedPixFmts at h
  split_ifs at h <;> cases h <;> simp_all

/-- What a successful `configure_with` went through. -/
theorem configureWithDesc_eq_ok {env : Env} {s : Settings} {n : Nat} {d : VideoDesc}
    {e : Encoder} (h : configureWithDesc env s n d = .ok e) :
    ∃ fmts, selectEncoder env s = some (e.outCodec, e.codec) ∧
      requestedPixFmts env s e.codec d = some fmts ∧
      env.getBestPixFmt fmts e.codec.pixFmts = some e.pixFmt ∧
      decoderFor d.colorSpec = some e.decoder ∧ e.parts = configureWith e.pixFmt d.height n := by
  unfold configureWithDesc at h
  split at h
  · cases h
  rename_i ugCodec codec hsel
  split at h
  · cases h
  rename_i fmts hreq
  split at h
  · rename_i pixFmt decoder hbest hdec
    split at h
    · cases h
      exact ⟨fmts, hsel, hreq, hbest, hdec, rfl⟩
    · cases h
  · cases h

/-- `configure_with` aborts exactly when it gets past the choice of the encoder with a
subsampling its switch does not know. -/
theorem configureWithDesc_eq_abort_iff {env : Env} {s : Settings} {n : Nat} {d : VideoDesc} :
    configureWithDesc env s n d = .abort ↔ (selectEncoder env s).isSome ∧ ¬ s.SubsamplingOk := by
  unfold configureWithDesc
  cases selectEncoder env s with
  | none => simp
  | some r =>
    obtain ⟨ugCodec, codec⟩ := r
    simp only [Option.isSome_some, true_and]
    rw [← @requestedPixFmts_eq_none_iff env s codec d]
    cases requestedPixFmts env s codec d with
    | none => simp
    | some fmts =>
      simp only [reduceCtorEq, iff_false]
      split
      · split <;> simp
      · simp

/-- The format `configure_with` selects is a requested one, if `get_best_pix_fmt` returns
one. -/
theorem configureWithDesc_pixFmt_mem {env : Env} {s : Settings} {n : Nat} {d : VideoDesc}
    {e : Encoder} (hbest : ∀ req sup f, env.getBestPixFmt req sup = some f → f ∈ req)
    (h : configureWithDesc env s n d = .ok e) :
    ∃ fmts, requestedPixFmts env s e.codec d = some fmts ∧ e.pixFmt ∈ fmts := by
  obtain ⟨fmts, -, hreq, hget, -⟩ := configureWithDesc_eq_ok h
  exact ⟨fmts, hreq, hbest _ _ _ hget⟩

/-- With format lists of known subsamplings and a `get_best_pix_fmt` that returns a requested
format, `configure_with` selects a format `select_pixfmt_callback` knows. -/
theorem configureWithDesc_subsampling_ne_unknown {env : Env} {s : Settings} {n : Nat}
    {d : VideoDesc} {e : Encoder}
    (hfmts : ∀ f ∈ env.fmts420 ++ env.fmts422 ++ env.fmts444, f.subsampling ≠ .unknown)
    (hbest : ∀ req sup f, env.getBestPixFmt req sup = some f → f ∈ req)
    (h : configureWithDesc env s n d = .ok e) : e.pixFmt.subsampling ≠ .unknown := by
  obtain ⟨fmts, hreq, hmem⟩ := configureWithDesc_pixFmt_mem hbest h
  rcases mem_requestedPixFmts hreq hmem with hf | hf
  · exact hfmts _ hf
  · rw [hf]
    decide

end UltraGrid.VideoCompress
