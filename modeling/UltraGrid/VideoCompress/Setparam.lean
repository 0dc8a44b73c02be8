import UltraGrid.VideoCompress.Configure

/-!
# The `set_param` functions of the libavcodec compressor

After the pixel format, `configure_with` sets the preset asked for with `preset=`, and returns
`false` when libavcodec refuses it; it then fills `s->params` and calls the `set_param` function
of the codec's entry of `codec_params`, which sets private options of the encoder with
`av_opt_set` and fields of the codec context (`codecOptions`). `av_opt_set` on a string option
replaces its value and fails on an option or a value the encoder does not take (`OptLib`); the
options are kept as the assignments made to them, newest first (`optValue`).

The four functions differ where it shows to a user. `setparam_h264` tries its chain
`x264-params`, `x264opts`, `preset` only when no preset was asked for, `setparam_h265` tries its
chain always, so that on a library without `x265-params` and `x265opts` the preset asked for
becomes `ultrafast`. `setparam_h265` sets `tune` twice, the second value replacing the first.
Only `setparam_h264` reads `no_periodic_intra`, and only `setparam_default` reads `thread_mode`.
`setparam_h264` gives NVENC the GPU `cuda_devices[0]` through a buffer of two bytes (`gpuArg`).

`rc_buffer_size` and `qcompress`, floating-point values computed from `fps`, and the warnings
are left out.

## Main definitions

* `OptLib`, `avOptSet`, `optValue`: the encoder's private options.
* `CodecCtx`, `SetparamParam`: what the functions read and write.
* `setparamDefault`, `setparamH264`, `setparamH265`, `setparamVp8`, `SetParam.run`.
* `codecOptions`: the preset step of `configure_with` and the `set_param` call.
-/

namespace UltraGrid.VideoCompress

/-! ### Private options -/

/-- What `av_opt_set(codec_ctx->priv_data, name, value, 0)` needs from libavcodec: whether the
encoder has the option `name` and takes `value` for it. -/
structure OptLib where
  accepts : List Char → List Char → Bool

/-- `av_opt_set` on a string option: the assignments after it, and whether it returned 0. -/
def avOptSet (lib : OptLib) (o : List (List Char × List Char)) (name value : List Char) :
    List (List Char × List Char) × Bool :=
  if lib.accepts name value then ((name, value) :: o, true) else (o, false)

/-- The value of the option `name`: the one set last. -/
def optValue (o : List (List Char × List Char)) (name : List Char) : Option (List Char) :=
  o.lookup name

@[simp] theorem optValue_cons (k v : List Char) (o : List (List Char × List Char))
    (name : List Char) : optValue ((k, v) :: o) name = if name = k then some v else optValue o name := by
  unfold optValue
  rw [List.lookup_cons]
  by_cases e : name = k
  · simp [e]
  · simp [e, beq_eq_false_iff_ne.2 e]

theorem avOptSet_of_accepts {lib : OptLib} {name value : List Char} (h : lib.accepts name value)
    (o : List (List Char × List Char)) : avOptSet lib o name value = ((name, value) :: o, true) := by
  simp [avOptSet, h]

theorem avOptSet_of_not_accepts {lib : OptLib} {name value : List Char}
    (h : lib.accepts name value = false) (o : List (List Char × List Char)) :
    avOptSet lib o name value = (o, false) := by
  simp [avOptSet, h]

@[simp] theorem optValue_avOptSet (lib : OptLib) (o : List (List Char × List Char))
    (name value name' : List Char) :
    optValue (avOptSet lib o name value).1 name' =
      if lib.accepts name value ∧ name' = name then some value else optValue o name' := by
  by_cases h : lib.accepts name value
  · by_cases e : name' = name <;> simp [avOptSet_of_accepts h, h, e]
  · simp [avOptSet_of_not_accepts (Bool.eq_false_iff.2 h), h]

/-! ### The codec context -/

/-- `FF_THREAD_FRAME`. -/
def ffThreadFrame : Nat := 1

/-- `FF_THREAD_SLICE`. -/
def ffThreadSlice : Nat := 2

/-- The fields of an `AVCodecContext` the `set_param` functions read or write: the encoder's
`name`, whether it can thread by slices and by frames, `bit_rate`, the private options, and
the fields they set. -/
structure CodecCtx where
  name : List Char
  sliceThreads : Bool
  frameThreads : Bool
  bitRate : Int
  priv : List (List Char × List Char)
  threadCount : Int
  threadType : Nat
  rcMaxRate : Int
  qmin : Int
  qmax : Int
  maxQdiff : Int
  refs : Int
  profile : Int
  slices : Int
  deriving DecidableEq, Repr

/-- `struct setparam_param` without `fps`, which only feeds `rc_buffer_size`. -/
structure SetparamParam where
  havePreset : Bool
  interlaced : Bool
  noPeriodicIntra : Bool
  cpuCount : Int
  threadMode : List Char
  deriving DecidableEq, Repr

/-- `DEFAULT_X264_PRESET`. -/
def defaultX264Preset : List Char := "superfast".toList

/-- `DEFAULT_NVENC_H264_PRESET`. -/
def defaultNvencH264Preset : List Char := "llhp".toList

/-! ### The four functions -/

/-- `setparam_default`: slice or frame threading, when the encoder can. -/
def setparamDefault (c : CodecCtx) (p : SetparamParam) : CodecCtx :=
  if p.threadMode ≠ [] ∧ p.threadMode ≠ "no".toList then
    if p.threadMode = "slice".toList then
      if c.sliceThreads then { c with threadCount := 0, threadType := ffThreadSlice } else c
    else if p.threadMode = "frame".toList then
      if c.frameThreads then { c with threadCount := 0, threadType := ffThreadFrame } else c
    else c
  else c

/-- The chain `setparam_h264` and `setparam_h265` both try: the encoder parameters `params`
through the option `paramsOpt`, else through `optsOpt`, else the preset `preset`. -/
def setEncoderParams (lib : OptLib) (o : List (List Char × List Char))
    (paramsOpt optsOpt params preset : List Char) : List (List Char × List Char) :=
  let (o, ok) := avOptSet lib o paramsOpt params
  let (o, ok) := if ok then (o, ok) else avOptSet lib o optsOpt params
  if ok then o else (avOptSet lib o "preset".toList preset).1

/-- The x264 parameters `setparam_h264` sets when no preset was asked for. -/
def x264Params : List Char :=
  ("no-8x8dct=1:b-adapt=0:bframes=0:no-cabac=1:" ++
    "no-deblock=1:no-mbtree=1:me=dia:no-mixed-refs=1:partitions=none:" ++
    "rc-lookahead=0:ref=1:scenecut=0:subme=0:trellis=0:aq_mode=2").toList

/-- The x265 parameters of `setparam_h265`, with `:tff=1` for interlaced formats. -/
def x265Params (interlaced : Bool) : List Char :=
  ("b-adapt=0:bframes=0:no-b-pyramid=1:" ++
    "no-deblock=1:no-sao=1:no-weightb=1:no-weightp=1:no-b-intra=1:" ++
    "me=dia:max-merge=1:subme=0:no-strong-intra-smoothing=1:" ++
    "rc-lookahead=2:ref=1:scenecut=0:" ++
    "no-cutree=1:no-weightp=1:" ++
    "rd=0:" ++
    "ctu=32:min-cu-size=16:max-tu-size=16:" ++
    "frame-threads=3:pme=1:" ++
    "keyint=180:min-keyint=120:" ++
    "aq_mode=0").toList ++ if interlaced then ":tff=1".toList else []

/-- `"%d"` of an `int`. -/
def decimal (n : Int) : List Char :=
  if n < 0 then '-' :: Nat.toDigits 10 n.natAbs else Nat.toDigits 10 n.natAbs

/-- What `snprintf(gpu, 2, "%d", dev)` leaves in `char gpu[3]`: one character and the
terminating zero. -/
def gpuArg (dev : Int) : List Char := (decimal dev).take 1

/-- `setparam_h264`: for libx264 the x264 parameters when no preset was asked for, the tune and
the rate control; for NVENC its preset when none was asked for, CBR and the GPU; for any
encoder intra refresh unless it was disabled. -/
def setparamH264 (lib : OptLib) (cudaDevice : Int) (c : CodecCtx) (p : SetparamParam) :
    CodecCtx :=
  let c :=
    if c.name = "libx264".toList then
      let o := if !p.havePreset then
          setEncoderParams lib c.priv "x264-params".toList "x264opts".toList x264Params
            defaultX264Preset
        else c.priv
      let o := (avOptSet lib o "tune".toList "fastdecode,zerolatency".toList).1
      { c with priv := o, rcMaxRate := c.bitRate, qmin := 0, qmax := 69, maxQdiff := 69 }
    else if c.name = "nvenc".toList then
      let o := if !p.havePreset then
          (avOptSet lib c.priv "preset".toList defaultNvencH264Preset).1
        else c.priv
      let o := (avOptSet lib o "cbr".toList "1".toList).1
      let o := (avOptSet lib o "gpu".toList (gpuArg cudaDevice)).1
      { c with priv := o, rcMaxRate := c.bitRate }
    else c
  if !p.noPeriodicIntra then
    { c with refs := 1, priv := (avOptSet lib c.priv "intra-refresh".toList "1".toList).1 }
  else c

/-- `setparam_h265`, with `DISABLE_H265_INTRA_REFRESH` not defined: the x265 parameters, the
tunes `zerolatency` and `fastdecode`, the rate control and intra refresh. -/
def setparamH265 (lib : OptLib) (c : CodecCtx) (p : SetparamParam) : CodecCtx :=
  let params := x265Params p.interlaced
  let o := if 0 < params.length then
      setEncoderParams lib c.priv "x265-params".toList "x265opts".toList params
        "ultrafast".toList
    else c.priv
  let o := (avOptSet lib o "tune".toList "zerolatency".toList).1
  let o := (avOptSet lib o "tune".toList "fastdecode".toList).1
  let o := (avOptSet lib o "intra-refresh".toList "1".toList).1
  { c with priv := o, rcMaxRate := c.bitRate, qmin := 0, qmax := 69, maxQdiff := 69, refs := 1 }

/-- `setparam_vp8`: a thread per core, four slices and the realtime deadline. -/
def setparamVp8 (lib : OptLib) (c : CodecCtx) (p : SetparamParam) : CodecCtx :=
  { c with
    threadCount := p.cpuCount, profile := 0, slices := 4,
    priv := (avOptSet lib c.priv "deadline".toList "realtime".toList).1 }

/-- The `set_param` of an entry of `codec_params`, called on `codec_ctx` and `s->params`. -/
def SetParam.run (lib : OptLib) (cudaDevice : Int) : SetParam → CodecCtx → SetparamParam → CodecCtx
  | .default => setparamDefault
  | .h264 => setparamH264 lib cudaDevice
  | .h265 => setparamH265 lib
  | .vp8 => setparamVp8 lib

/-- `configure_with` from the preset on: the preset asked for, `false` when libavcodec refuses
it, then `s->params` from the settings and the format, and the `set_param` call. -/
def codecOptions (lib : OptLib) (cudaDevice : Int) (sp : SetParam) (s : Settings) (cpuCount : Nat)
    (d : VideoDesc) (c : CodecCtx) : Option CodecCtx := do
  let c ← match s.preset with
    | some preset =>
      let (o, ok) := avOptSet lib c.priv "preset".toList preset
      if ok then pure { c with priv := o } else none
    | none => pure c
  pure (sp.run lib cudaDevice c
    ⟨s.preset.isSome, decide (d.interlacing = .interlacedMerged), s.noPeriodicIntra, cpuCount,
      s.threadMode⟩)

end UltraGrid.VideoCompress
