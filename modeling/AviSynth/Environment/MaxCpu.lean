import AviSynth.Library.IntegerText

/-!
# `SetMaxCPU`

The flags of the processor features, the levels that each architecture knows,
and the function that reads the list of requests and changes the flags that the
environment reports.
-/

namespace AviSynth

/-! ## Flags -/

/-- The 64 flags of `GetCPUFlagsEx`. -/
abbrev CpuFlagsEx := BitVec 64

namespace Cpuf

/-! The bits of x86. -/

def MMX : CpuFlagsEx := 0x04
def INTEGER_SSE : CpuFlagsEx := 0x08
def SSE : CpuFlagsEx := 0x10
def SSE2 : CpuFlagsEx := 0x20
def SSE3 : CpuFlagsEx := 0x100
def SSSE3 : CpuFlagsEx := 0x200
def SSE4_1 : CpuFlagsEx := 0x400
def AVX : CpuFlagsEx := 0x800
def SSE4_2 : CpuFlagsEx := 0x1000
def AVX2 : CpuFlagsEx := 0x2000
def FMA3 : CpuFlagsEx := 0x4000
def F16C : CpuFlagsEx := 0x8000
def FMA4 : CpuFlagsEx := 0x80000
def AVX512F : CpuFlagsEx := 0x00100000
def AVX512DQ : CpuFlagsEx := 0x00200000
def AVX512PF : CpuFlagsEx := 0x00400000
def AVX512ER : CpuFlagsEx := 0x00800000
def AVX512CD : CpuFlagsEx := 0x01000000
def AVX512BW : CpuFlagsEx := 0x02000000
def AVX512VL : CpuFlagsEx := 0x04000000
def AVX512IFMA : CpuFlagsEx := 0x08000000
def AVX512VBMI : CpuFlagsEx := 0x10000000
def AVX512_BASE : CpuFlagsEx := 0x20000000
def AVX512_FAST : CpuFlagsEx := 0x40000000
def AVX512VNNI : CpuFlagsEx := 0x00100000000
def AVX512VBMI2 : CpuFlagsEx := 0x00200000000
def AVX512BITALG : CpuFlagsEx := 0x00400000000
def AVX512VPOPCNTDQ : CpuFlagsEx := 0x00800000000
def AVX512FP16 : CpuFlagsEx := 0x01000000000
def AVX512BF16 : CpuFlagsEx := 0x02000000000

/-- The features that the level `avx512base` stands for. -/
def AVX512_BASE_ALL : CpuFlagsEx :=
  AVX512F ||| AVX512CD ||| AVX512BW ||| AVX512DQ ||| AVX512VL ||| AVX512_BASE

/-- The features that the level `avx512fast` stands for. -/
def AVX512_FAST_ALL : CpuFlagsEx :=
  AVX512_BASE_ALL ||| AVX512VNNI ||| AVX512VBMI ||| AVX512VBMI2 ||| AVX512BITALG |||
    AVX512VPOPCNTDQ ||| AVX512_FAST

/-- All AVX-512 features. -/
def AVX512_MASK : CpuFlagsEx :=
  AVX512_FAST_ALL ||| AVX512IFMA ||| AVX512BF16 ||| AVX512FP16 ||| AVX512PF ||| AVX512ER

/-! The bits of 64-bit ARM. -/

def ARM_NEON : CpuFlagsEx := 0x01
def ARM_DOTPROD : CpuFlagsEx := 0x02
def ARM_SVE2 : CpuFlagsEx := 0x04
def ARM_I8MM : CpuFlagsEx := 0x08
def ARM_SVE2_1 : CpuFlagsEx := 0x10

end Cpuf

/-- `if (c) cpu_flags &= ~mask`. -/
def switchOff (c : Prop) [Decidable c] (mask flags : CpuFlagsEx) : CpuFlagsEx :=
  if c then flags &&& ~~~mask else flags

/-! ## Architectures -/

/-- What the preprocessor chooses for one architecture: the levels, the texts
that name them, the end of the message that lists them, the flags that stay on
under a limit, and the flag that `+` and `-` switch. -/
structure CpuTarget where
  CPUlevel : Type
  names : List (String × CPUlevel)
  levelTexts : String
  limit : CPUlevel → CpuFlagsEx → CpuFlagsEx
  currentFlag : CPUlevel → CpuFlagsEx

/-- The levels of 64-bit ARM, in their order. -/
inductive ArmLevel
  | none | neon | dotprod | sve2 | i8mm | sve2_1
  deriving DecidableEq

namespace ArmLevel

/-- The order of the enumeration. -/
instance : LE ArmLevel := ⟨fun a b => a.ctorIdx ≤ b.ctorIdx⟩
instance : LT ArmLevel := ⟨fun a b => a.ctorIdx < b.ctorIdx⟩
instance (a b : ArmLevel) : Decidable (a ≤ b) := inferInstanceAs (Decidable (_ ≤ _))
instance (a b : ArmLevel) : Decidable (a < b) := inferInstanceAs (Decidable (_ < _))

/-- The ladder of tests that switches off what lies above a level. -/
def limit (cpulevel : ArmLevel) (flags : CpuFlagsEx) : CpuFlagsEx :=
  let flags := switchOff (cpulevel < sve2_1) Cpuf.ARM_SVE2_1 flags
  let flags := switchOff (cpulevel < i8mm) Cpuf.ARM_I8MM flags
  let flags := switchOff (cpulevel ≤ dotprod) Cpuf.ARM_SVE2 flags
  let flags := switchOff (cpulevel ≤ neon) Cpuf.ARM_DOTPROD flags
  switchOff (cpulevel ≤ none) Cpuf.ARM_NEON flags

/-- The flags that a level stands for by itself. -/
def currentFlag : ArmLevel → CpuFlagsEx
  | sve2_1 => Cpuf.ARM_SVE2_1
  | i8mm => Cpuf.ARM_I8MM
  | sve2 => Cpuf.ARM_SVE2
  | dotprod => Cpuf.ARM_DOTPROD
  | neon => Cpuf.ARM_NEON
  | none => 0

end ArmLevel

/-- The branch for 64-bit ARM. -/
def arm64Target : CpuTarget where
  CPUlevel := ArmLevel
  names := [("", .none), ("none", .none), ("neon", .neon), ("dotprod", .dotprod),
    ("sve2", .sve2), ("i8mm", .i8mm), ("sve2.1", .sve2_1)]
  levelTexts := "empty or none, neon, dotprod, sve2, i8mm or sve2.1"
  limit := ArmLevel.limit
  currentFlag := ArmLevel.currentFlag

/-- The levels of x86, in their order. -/
inductive X86Level
  | none | mmx | sse | sse2 | sse3 | ssse3 | sse4_1 | sse4_2 | avx | avx2
  | avx512Base | avx512Fast
  deriving DecidableEq

namespace X86Level

/-- The order of the enumeration. -/
instance : LE X86Level := ⟨fun a b => a.ctorIdx ≤ b.ctorIdx⟩
instance (a b : X86Level) : Decidable (a ≤ b) := inferInstanceAs (Decidable (_ ≤ _))

/-- The ladder of x86. Features of AVX-512 outside the two groups go at every level. -/
def limit (cpulevel : X86Level) (flags : CpuFlagsEx) : CpuFlagsEx :=
  let flags := switchOff (cpulevel ≤ avx512Fast)
    (Cpuf.AVX512_MASK &&& ~~~Cpuf.AVX512_FAST_ALL) flags
  let flags := switchOff (cpulevel ≤ avx512Base)
    (Cpuf.AVX512_MASK &&& ~~~Cpuf.AVX512_BASE_ALL) flags
  let flags := switchOff (cpulevel ≤ avx2) Cpuf.AVX512_MASK flags
  let flags := switchOff (cpulevel ≤ avx)
    (Cpuf.AVX2 ||| Cpuf.FMA3 ||| Cpuf.FMA4 ||| Cpuf.F16C) flags
  let flags := switchOff (cpulevel ≤ sse4_2) Cpuf.AVX flags
  let flags := switchOff (cpulevel ≤ sse4_1) Cpuf.SSE4_2 flags
  let flags := switchOff (cpulevel ≤ ssse3) Cpuf.SSE4_1 flags
  let flags := switchOff (cpulevel ≤ sse3) Cpuf.SSSE3 flags
  let flags := switchOff (cpulevel ≤ sse2) Cpuf.SSE3 flags
  let flags := switchOff (cpulevel ≤ sse) Cpuf.SSE2 flags
  let flags := switchOff (cpulevel ≤ mmx) (Cpuf.SSE ||| Cpuf.INTEGER_SSE) flags
  switchOff (cpulevel ≤ none) Cpuf.MMX flags

/-- The flags that a level stands for by itself. -/
def currentFlag : X86Level → CpuFlagsEx
  | avx512Fast => Cpuf.AVX512_FAST_ALL
  | avx512Base => Cpuf.AVX512_BASE_ALL
  | avx2 => Cpuf.AVX2 ||| Cpuf.FMA3
  | avx => Cpuf.AVX
  | sse4_2 => Cpuf.SSE4_2
  | sse4_1 => Cpuf.SSE4_1
  | ssse3 => Cpuf.SSSE3
  | sse3 => Cpuf.SSE3
  | sse2 => Cpuf.SSE2
  | sse => Cpuf.SSE
  | mmx => Cpuf.MMX
  | none => 0

end X86Level

/-- The branch for x86, 32 and 64 bits. -/
def x86Target : CpuTarget where
  CPUlevel := X86Level
  names := [("", .none), ("none", .none), ("mmx", .mmx), ("sse", .sse), ("sse2", .sse2),
    ("sse3", .sse3), ("ssse3", .ssse3), ("sse4", .sse4_1), ("sse4.1", .sse4_1),
    ("sse4.2", .sse4_2), ("avx", .avx), ("avx2", .avx2), ("avx512base", .avx512Base),
    ("avx512fast", .avx512Fast)]
  levelTexts := "empty or none, mmx, sse, sse2, sse3, ssse3, sse4 or sse4.1, sse4.2, avx, avx2, " ++
    "avx512base or avx512fast"
  limit := X86Level.limit
  currentFlag := X86Level.currentFlag

/-- Any other architecture knows only `CL_NONE`, and a limit switches all off. -/
def otherTarget : CpuTarget where
  CPUlevel := Unit
  names := [("", ()), ("none", ())]
  levelTexts := "empty or none"
  limit _ _ := 0
  currentFlag _ := 0

/-- The architectures that the preprocessor tells apart. -/
inductive Architecture
  | arm64 | x86 | other

/-- The branch that the preprocessor takes. -/
def Architecture.target : Architecture → CpuTarget
  | arm64 => arm64Target
  | x86 => x86Target
  | other => otherTarget

/-! ## The function -/

/-- A comparison without case. -/
def streqi (s1 s2 : List Char) : Bool := s1.map Char.toLower = s2.map Char.toLower

/-- The text without the blanks around it. -/
def Strings.trim (s : List Char) : List Char :=
  ((s.dropWhile isSpace).reverse.dropWhile isSpace).reverse

/-- The loop that cuts `s` at its commas; `piece` is what stands between `start`
and the place reached. A piece before a comma is kept when it is not empty, what
follows the last comma always: there `end` is `npos`, which is never `start`. -/
def splitTokens (piece : List Char) : List Char → List (List Char)
  | [] => [piece]
  | c :: rest =>
      if c = ',' then
        if piece ≠ [] then piece :: splitTokens [] rest else splitTokens [] rest
      else splitTokens (piece ++ [c]) rest

/-- What a token asks for. -/
inductive CpuMode
  | limit | add | remove
  deriving DecidableEq

/-- The mode that the last character of a token asks for. -/
def CpuMode.ofToken (token : List Char) : CpuMode :=
  if token.getLast? = some '-' then .remove
  else if token.getLast? = some '+' then .add
  else .limit

namespace CpuTarget

variable (T : CpuTarget)

/-- The chain of comparisons that finds the level. -/
def cpulevel? (t : List Char) : Option T.CPUlevel :=
  (T.names.find? fun entry => streqi t entry.1.toList).map (·.2)

/-- The error for a token that names no level. -/
def unknownLevel (t : List Char) : String :=
  "SetMaxCPU error: cpu level must be " ++ T.levelTexts ++ " (" ++ String.ofList t ++ ")"

/-- The body of the loop over the tokens. -/
def applyToken (flags : CpuFlagsEx) (token : List Char) : Except String CpuFlagsEx :=
  let token := Strings.trim token
  if token = [] then .ok flags
  else
    let mode := CpuMode.ofToken token
    let t := if mode ≠ .limit then token.dropLast else token
    match T.cpulevel? t with
    | none => .error (T.unknownLevel t)
    | some cpulevel =>
        match mode with
        | .limit => .ok (T.limit cpulevel flags)
        | .remove =>
            .ok (if T.currentFlag cpulevel ≠ 0 then flags &&& ~~~T.currentFlag cpulevel else flags)
        | .add => .ok (flags ||| T.currentFlag cpulevel)

/-- The outcome and the flags the environment reports afterwards. An error leaves
before they are assigned. -/
def SetMaxCPU (features : List Char) (cpuFlagsEx : CpuFlagsEx) : Except String Unit × CpuFlagsEx :=
  match (splitTokens [] (features.map Char.toLower)).foldlM T.applyToken cpuFlagsEx with
  | .ok flags => (.ok (), flags)
  | .error e => (.error e, cpuFlagsEx)

end CpuTarget

end AviSynth
