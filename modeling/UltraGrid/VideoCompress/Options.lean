import Mathlib.Data.List.Basic

/-!
# The options of the libavcodec compressor

`parse_fmt` reads the configuration of `-c libavcodec:…` and of every compression-change
message. `strtok_r` cuts the string at `':'` into its nonempty tokens (`strtok`), and the loop
matches each token against the option names in the order of the source, ASCII letters compared
without case (`parseItem`). It stops at `help`, returning `1`, and at the first token it rejects,
returning `-1`: an unknown option, a codec `get_codec_from_name` does not know, or a subsampling
other than 444, 422 and 420. The options before that token stay written, and so does the rejected
codec or subsampling, which the source stores before it checks it.

Options compose: a string `a:b` is parsed as `a` and then, if `a` is accepted, as `b`
(`parseFmt_append`). What `parse_fmt` returns depends on the string alone (`parseFmt_snd`). A
string that is not rejected keeps a subsampling `configure_with` knows
(`parseFmt_subsamplingOk`), and no string clears `disable_intra_refresh` or a preset
(`parseFmt_sticky`).

Strings are `List Char`. `get_codec_from_name`, `unit_evaluate` and `atoi` are not among the
sources: they are the fields of `OptionLib`. `unit_evaluate` is taken to return an integer, which
`requested_bitrate` stores and the `double` `requested_bpp` holds. A `NULL` `fmt` is left out.

## Main definitions

* `strtok`, `startsWithCI`, `equalsCI`: `strtok_r`, `strncasecmp` and `strcasecmp`.
* `Settings`, `initSettings`: the fields `parse_fmt` writes, and their values in a fresh state.
* `parseItem`, `parseTokens`, `parseFmt`: one token, the loop, and `parse_fmt`.

## Main statements

* `strtok_append`, `parseTokens_append`: the tokens and the parse of a concatenation.
* `parseFmt_append`: `a:b` parses as `a` and then `b`.
* `parseFmt_snd`, `parseFmt_subsamplingOk`, `parseFmt_sticky`: what a parse returns and keeps.
-/

namespace UltraGrid.VideoCompress

/-! ### C strings -/

/-- The tokens `strtok_r(str, delim, &save_ptr)` and its calls with `NULL` return, for a single
delimiter: the nonempty runs of characters other than `delim`, in order. `cur` is the token read
so far. -/
def strtokFrom (delim : Char) : List Char → List Char → List (List Char)
  | cur, [] => if cur = [] then [] else [cur]
  | cur, c :: s =>
    if c = delim then (if cur = [] then [] else [cur]) ++ strtokFrom delim [] s
    else strtokFrom delim (cur ++ [c]) s

/-- The tokens `strtok_r` returns for `str`. -/
def strtok (delim : Char) (str : List Char) : List (List Char) := strtokFrom delim [] str

/-- `strncasecmp(name, item, strlen(name)) == 0`: `item` begins with `name`, ASCII letters
compared without case. -/
def startsWithCI : List Char → List Char → Bool
  | [], _ => true
  | _ :: _, [] => false
  | a :: name, b :: item => a.toLower == b.toLower && startsWithCI name item

/-- `strcasecmp(name, item) == 0`. -/
def equalsCI (name item : List Char) : Bool := item.length == name.length && startsWithCI name item

theorem strtokFrom_append (delim : Char) (a b : List Char) :
    ∀ cur, strtokFrom delim cur (a ++ delim :: b) = strtokFrom delim cur a ++ strtok delim b := by
  induction a with
  | nil => intro cur; simp [strtokFrom, strtok]
  | cons c a ih =>
    intro cur
    by_cases hc : c = delim
    · simp [strtokFrom, hc, ih]
    · simp [strtokFrom, hc, ih]

/-- The tokens of `a:b` are those of `a` and then those of `b`. -/
theorem strtok_append (delim : Char) (a b : List Char) :
    strtok delim (a ++ delim :: b) = strtok delim a ++ strtok delim b :=
  strtokFrom_append delim a b []

/-! ### The settings -/

/-- The values of `codec_t` the compressor names: `VIDEO_CODEC_NONE`, the codecs of
`codec_params`, the formats `configure_with` has a line decoder for, and any other by its
number. -/
inductive Codec where
  | none | h264 | h265 | mjpg | j2k | vp8 | uyvy | yuyv | v210 | rgb | bgr | rgba
  | other (id : Nat)
  deriving DecidableEq, Repr

/-- The functions outside the sources that `parse_fmt` calls. -/
structure OptionLib where
  /-- `get_codec_from_name`. -/
  getCodecFromName : List Char → Codec
  /-- `unit_evaluate`. -/
  unitEvaluate : List Char → Int
  /-- `atoi`. -/
  atoi : List Char → Int

/-- The fields of `state_video_compress_libav` that `parse_fmt` writes: `preset` is `NULL` or
the string `strdup` made, `noPeriodicIntra` and `threadMode` are in `params`, and `backend` is
the encoder asked for. -/
structure Settings where
  requestedCodecId : Codec
  requestedBitrate : Int
  requestedBpp : Int
  requestedSubsampling : Int
  preset : Option (List Char)
  noPeriodicIntra : Bool
  threadMode : List Char
  backend : List Char
  requestedGop : Int
  deriving DecidableEq, Repr

/-- `DEFAULT_THREAD_MODE`. -/
def defaultThreadMode : List Char := "slice".toList

/-- The settings `libavcodec_compress_init` gives a fresh state before it parses its
configuration: `new state_video_compress_libav()` zeroes the fields it does not set. -/
def initSettings : Settings where
  requestedCodecId := .none
  requestedBitrate := -1
  requestedBpp := 0
  requestedSubsampling := 0
  preset := none
  noPeriodicIntra := false
  threadMode := defaultThreadMode
  backend := []
  requestedGop := 0

/-- `requested_subsampling` is a value the switch of `configure_with` knows: `0` for none asked
for, 420, 422 or 444. -/
def Settings.SubsamplingOk (s : Settings) : Prop :=
  s.requestedSubsampling = 0 ∨ s.requestedSubsampling = 420 ∨ s.requestedSubsampling = 422 ∨
    s.requestedSubsampling = 444

instance Settings.decidableSubsamplingOk (s : Settings) : Decidable s.SubsamplingOk :=
  inferInstanceAs (Decidable (_ ∨ _))

/-- What `s'` keeps of `s`: `disable_intra_refresh`, and that a preset was given. -/
def Settings.Sticky (s s' : Settings) : Prop :=
  (s.noPeriodicIntra = true → s'.noPeriodicIntra = true) ∧ (s.preset.isSome → s'.preset.isSome)

theorem Settings.Sticky.refl (s : Settings) : s.Sticky s := ⟨id, id⟩

theorem Settings.Sticky.trans {s₁ s₂ s₃ : Settings} (h₁ : s₁.Sticky s₂) (h₂ : s₂.Sticky s₃) :
    s₁.Sticky s₃ :=
  ⟨h₂.1 ∘ h₁.1, h₂.2 ∘ h₁.2⟩

/-! ### `parse_fmt` -/

/-- The options `parse_fmt` tells apart, each with the text after its name. -/
inductive FmtOption where
  | help
  | codec (name : List Char)
  | bitrate (value : List Char)
  | bpp (value : List Char)
  | subsampling (value : List Char)
  | preset (value : List Char)
  | disableIntraRefresh
  | threads (mode : List Char)
  | encoder (name : List Char)
  | gop (value : List Char)
  | unknown
  deriving DecidableEq, Repr

/-- The option of the token `item`: the first test of the chain of `parse_fmt` it passes. -/
def fmtOption (item : List Char) : FmtOption :=
  if startsWithCI "help".toList item then .help
  else if startsWithCI "codec=".toList item then .codec (item.drop "codec=".length)
  else if startsWithCI "bitrate=".toList item then .bitrate (item.drop "bitrate=".length)
  else if startsWithCI "bpp=".toList item then .bpp (item.drop "bpp=".length)
  else if startsWithCI "subsampling=".toList item then
    .subsampling (item.drop "subsampling=".length)
  else if startsWithCI "preset=".toList item then .preset (item.drop "preset=".length)
  else if equalsCI "disable_intra_refresh".toList item then .disableIntraRefresh
  else if startsWithCI "threads=".toList item then .threads (item.drop "threads=".length)
  else if startsWithCI "encoder=".toList item then .encoder (item.drop "encoder=".length)
  else if startsWithCI "gop=".toList item then .gop (item.drop "gop=".length)
  else .unknown

/-- One round of the loop of `parse_fmt` on the token `item`: the settings after it, and the
value `parse_fmt` returns if it stops there. A codec and a subsampling are stored before they are
checked. -/
def parseItem (lib : OptionLib) (s : Settings) (item : List Char) : Settings × Option Int :=
  match fmtOption item with
  | .help => (s, some 1)
  | .codec name =>
    let codec := lib.getCodecFromName name
    ({ s with requestedCodecId := codec }, if codec = .none then some (-1) else none)
  | .bitrate value => ({ s with requestedBitrate := lib.unitEvaluate value }, none)
  | .bpp value => ({ s with requestedBpp := lib.unitEvaluate value }, none)
  | .subsampling value =>
    let subsampling := lib.atoi value
    ({ s with requestedSubsampling := subsampling },
      if subsampling ≠ 444 ∧ subsampling ≠ 422 ∧ subsampling ≠ 420 then some (-1) else none)
  | .preset value => ({ s with preset := some value }, none)
  | .disableIntraRefresh => ({ s with noPeriodicIntra := true }, none)
  | .threads mode => ({ s with threadMode := mode }, none)
  | .encoder name => ({ s with backend := name }, none)
  | .gop value => ({ s with requestedGop := lib.atoi value }, none)
  | .unknown => (s, some (-1))

/-- The loop of `parse_fmt` over the tokens: the settings it leaves and the value it returns. -/
def parseTokens (lib : OptionLib) : Settings → List (List Char) → Settings × Int
  | s, [] => (s, 0)
  | s, item :: items =>
    match parseItem lib s item with
    | (s, some r) => (s, r)
    | (s, none) => parseTokens lib s items

/-- `parse_fmt(s, fmt)`: the settings it leaves and the value it returns. -/
def parseFmt (lib : OptionLib) (s : Settings) (fmt : List Char) : Settings × Int :=
  parseTokens lib s (strtok ':' fmt)

/-- Whether a round stops the loop, and with which value, does not depend on the settings. -/
theorem parseItem_snd (lib : OptionLib) (s s' : Settings) (item : List Char) :
    (parseItem lib s item).2 = (parseItem lib s' item).2 := by
  unfold parseItem
  split <;> rfl

/-- A round that stops the loop returns `1` or `-1`, never `0`. -/
theorem parseItem_snd_ne_zero (lib : OptionLib) (s : Settings) (item : List Char) :
    (parseItem lib s item).2 ≠ some 0 := by
  unfold parseItem
  split <;> simp

/-- A round that does not stop with `-1` keeps a subsampling `configure_with` knows. -/
theorem parseItem_subsamplingOk {lib : OptionLib} {s : Settings} {item : List Char}
    (h : s.SubsamplingOk) (hr : (parseItem lib s item).2 ≠ some (-1)) :
    (parseItem lib s item).1.SubsamplingOk := by
  rcases e : fmtOption item <;> simp only [parseItem, e] at hr ⊢ <;> try exact h
  case subsampling v =>
    split at hr
    · exact absurd rfl hr
    · simp only [Settings.SubsamplingOk]
      omega

theorem parseItem_sticky (lib : OptionLib) (s : Settings) (item : List Char) :
    s.Sticky (parseItem lib s item).1 := by
  unfold parseItem
  split <;> simp [Settings.Sticky]

/-- Parsing `xs ++ ys` parses `xs` and, unless that stopped, `ys` from where it left off. -/
theorem parseTokens_append (lib : OptionLib) (xs ys : List (List Char)) :
    ∀ s, parseTokens lib s (xs ++ ys) =
      if (parseTokens lib s xs).2 = 0 then parseTokens lib (parseTokens lib s xs).1 ys
      else parseTokens lib s xs := by
  induction xs with
  | nil => intro s; simp [parseTokens]
  | cons x xs ih =>
    intro s
    have hne := parseItem_snd_ne_zero lib s x
    rcases h : parseItem lib s x with ⟨s', _ | r⟩
    · simp [parseTokens, h, ih]
    · rw [h] at hne
      have : r ≠ 0 := fun e => hne (e ▸ rfl)
      simp [parseTokens, h, this]

theorem parseTokens_snd (lib : OptionLib) (items : List (List Char)) :
    ∀ s s', (parseTokens lib s items).2 = (parseTokens lib s' items).2 := by
  induction items with
  | nil => intro s s'; rfl
  | cons x xs ih =>
    intro s s'
    have e := parseItem_snd lib s s' x
    rcases h : parseItem lib s x with ⟨t, _ | r⟩ <;>
      rcases h' : parseItem lib s' x with ⟨t', _ | r'⟩ <;>
      rw [h, h'] at e <;> simp only [parseTokens, h, h']
    · exact ih t t'
    · cases e
    · cases e
    · simpa using e

theorem parseTokens_subsamplingOk (lib : OptionLib) (items : List (List Char)) :
    ∀ s, s.SubsamplingOk → (parseTokens lib s items).2 ≠ -1 →
      (parseTokens lib s items).1.SubsamplingOk := by
  induction items with
  | nil => exact fun s h _ => h
  | cons x xs ih =>
    intro s h hr
    have hx := @parseItem_subsamplingOk lib s x h
    rcases e : parseItem lib s x with ⟨t, _ | r⟩ <;> simp_all [parseTokens]

theorem parseTokens_sticky (lib : OptionLib) (items : List (List Char)) :
    ∀ s : Settings, s.Sticky (parseTokens lib s items).1 := by
  induction items with
  | nil => exact Settings.Sticky.refl
  | cons x xs ih =>
    intro s
    have hx := parseItem_sticky lib s x
    rcases e : parseItem lib s x with ⟨t, _ | r⟩ <;> rw [e] at hx
    · simpa [parseTokens, e] using hx.trans (ih t)
    · simpa [parseTokens, e] using hx

/-- What `parse_fmt` returns depends on the string alone. -/
theorem parseFmt_snd (lib : OptionLib) (s s' : Settings) (fmt : List Char) :
    (parseFmt lib s fmt).2 = (parseFmt lib s' fmt).2 :=
  parseTokens_snd lib _ s s'

/-- A string `parse_fmt` does not reject keeps a subsampling `configure_with` knows. -/
theorem parseFmt_subsamplingOk {lib : OptionLib} {s : Settings} {fmt : List Char}
    (h : s.SubsamplingOk) (hr : (parseFmt lib s fmt).2 ≠ -1) :
    (parseFmt lib s fmt).1.SubsamplingOk :=
  parseTokens_subsamplingOk lib _ s h hr

/-- No string clears `disable_intra_refresh` or a preset. -/
theorem parseFmt_sticky (lib : OptionLib) (s : Settings) (fmt : List Char) :
    s.Sticky (parseFmt lib s fmt).1 :=
  parseTokens_sticky lib _ s

/-- The options of `a:b` are those of `a` and then, if `parse_fmt` accepts `a`, those of `b`:
one message `a:b` does what the message `a` and then the message `b` do, and nothing of `b`
when `a` is rejected or asks for help. -/
theorem parseFmt_append (lib : OptionLib) (s : Settings) (a b : List Char) :
    parseFmt lib s (a ++ ':' :: b) =
      if (parseFmt lib s a).2 = 0 then parseFmt lib (parseFmt lib s a).1 b
      else parseFmt lib s a := by
  simp only [parseFmt, strtok_append, parseTokens_append]

end UltraGrid.VideoCompress
