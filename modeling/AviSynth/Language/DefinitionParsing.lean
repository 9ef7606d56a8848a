import AviSynth.Language.ParameterLists

/-!
# Parsing of function definitions

What the parser accepts as a list of parameters or of captured variables is spelled out in the
tokens that it takes. The arrays for the parameters and the buffer for the signature are large
enough for it.
-/

namespace AviSynth

namespace Language

open Exceptional

variable {F D : Type}

namespace Declaration

/-- The tokens of a declared parameter. -/
def tokens (d : Declaration) : List (Token D) :=
  (d.typeWord.toList.map .identifier) ++
    [if d.quoted then .string d.name else .identifier d.name]

theorem text_length_le (d : Declaration) :
    d.text.length ≤ (if d.quoted then d.name.length + 2 else 0) + 2 := by
  have hkind : d.type.2.toList.length ≤ 1 := by
    cases d.type.2 <;> simp
  unfold text
  cases d.quoted with
  | false =>
    simp only [Bool.false_eq_true, if_false, List.nil_append, List.length_cons]
    omega
  | true =>
    simp only [if_true, List.length_append, List.length_cons, List.length_nil,
      String.length_toList]
    omega

end Declaration

/-- A comma before each of some elements, but for the first one of a list. -/
def separated {α : Type} (spell : α → List (Token D)) : Bool → List α → List (Token D)
  | _, [] => []
  | needComma, a :: as =>
    (if needComma then [.operator (.single ',')] else []) ++ spell a ++ separated spell true as

namespace Parameters

/-- The parameters are within the sizes of the arrays and of the buffer. -/
structure Fits (params : Parameters) : Prop where
  names : params.paramNames.length ≤ maxArgs
  plain : params.namedArgFound = false → params.paramTypes.length ≤ 2 * params.paramNames.length
  named : params.namedArgFound = true → params.paramTypes.length ≤ 4003

theorem fits_empty : empty.Fits := ⟨Nat.zero_le _, fun _ => Nat.zero_le _, nofun⟩

theorem Fits.length_lt {params : Parameters} (h : params.Fits) :
    params.paramTypes.length < 4096 := by
  have hnames := h.names
  unfold maxArgs at hnames
  cases hfound : params.namedArgFound with
  | false =>
    have hplain := h.plain hfound
    omega
  | true =>
    have hnamed := h.named hfound
    omega

/-- A further parameter fits if the parser has checked the sizes for it. -/
theorem Fits.add {params : Parameters} (h : params.Fits)
    (hnames : params.paramNames.length ≠ maxArgs) (d : Declaration)
    (hplain : d.quoted = false → params.namedArgFound = false)
    (hquoted : d.quoted = true → params.paramTypes.length + d.name.length < 4000) :
    (params.add d).Fits := by
  have hle := h.names
  have hnew : (params.add d).paramNames.length = params.paramNames.length + 1 :=
    List.length_append
  have htypes : (params.add d).paramTypes.length = params.paramTypes.length + d.text.length :=
    List.length_append
  have htext := d.text_length_le
  constructor
  · omega
  · intro hfound
    have hunquoted : d.quoted = false := hfound
    have hbefore := h.plain (hplain hunquoted)
    rw [hunquoted] at htext
    simp only [Bool.false_eq_true, if_false] at htext
    omega
  · intro hfound
    have hisquoted : d.quoted = true := hfound
    have hbefore := hquoted hisquoted
    rw [hisquoted] at htext
    simp only [if_true] at htext
    omega

/-- What is read into the arrays and into the buffer, one after the other. -/
theorem foldl_add (ds : List Declaration) (params : Parameters) :
    (ds.foldl add params).paramTypes = params.paramTypes ++ signature ds ∧
      (ds.foldl add params).paramFloats = params.paramFloats ++ ds.map Declaration.isFloat ∧
      (ds.foldl add params).paramNames = params.paramNames ++ ds.map Declaration.name := by
  induction ds generalizing params with
  | nil => simp [signature]
  | cons d ds ih =>
    obtain ⟨htypes, hfloats, hnames⟩ := ih (params.add d)
    have hsplit : signature (d :: ds) = d.text ++ signature ds := List.flatMap_cons
    rw [List.foldl_cons, htypes, hfloats, hnames, hsplit]
    simp [add]

end Parameters

/-- What a function definition declares. A legacy one has a name. -/
structure Definition (F D : Type) where
  name : Option String
  varNames : List String
  parameters : List Declaration
  body : Exp F D

namespace Definition

def paramTypes (d : Definition F D) : String := String.ofList (signature d.parameters)

def paramFloats (d : Definition F D) : List Bool := d.parameters.map Declaration.isFloat

def paramNames (d : Definition F D) : List String := d.parameters.map Declaration.name

/-- The tokens of the captured variables, which may be left out. -/
def CapturesSpelled (d : Definition F D) (tokens : List (Token D)) : Prop :=
  d.varNames = [] ∧ tokens = [] ∨
    tokens = .operator (.single '[') ::
      separated (fun name => [.identifier name]) false d.varNames ++ [.operator (.single ']')]

/-- The tokens of the parameters, which may be left out. -/
def ParametersSpelled (d : Definition F D) (tokens : List (Token D)) : Prop :=
  d.parameters = [] ∧ tokens = [] ∨
    tokens = .operator (.single '(') ::
      separated Declaration.tokens false d.parameters ++ [.operator (.single ')')]

/-- The tokens behind the keyword and before the body. -/
def Spelled (d : Definition F D) (tokens : List (Token D)) : Prop :=
  ∃ captures params, d.CapturesSpelled captures ∧ d.ParametersSpelled params ∧
    tokens = d.name.toList.map .identifier ++ captures ++ params

/-- What the environment gets to know of a legacy definition. -/
def function (d : Definition F D) (name : String) : Function F D :=
  ⟨some name, some ("_" ++ name), d.paramTypes, .script d.body d.paramFloats d.paramNames⟩

/-- What the parser makes of the definition: a registered function, or an expression that
makes a function object. -/
inductive Makes (d : Definition F D) (s' : ParserState F D) : Exp F D → Prop where
  | legacy {name : String} {functions : List (Function F D)} (hname : d.name = some name)
      (hvars : d.varNames = []) (hfunctions : s'.functions = functions ++ [d.function name]) :
      Makes d s' .legacyFunctionDefinition
  | anonymous {filename : Option String} {line : ℕ} (hname : d.name = none) :
      Makes d s' (.functionDefinition d.body d.paramTypes d.paramFloats d.paramNames d.varNames
        filename line)

end Definition

namespace ScriptParser

variable {s s' : ParserState F D} {rounds : ℕ}

/-- A token that is not the end of the text is the first of those that are left. -/
theorem token_eq_ok {t : Token D} (h : token s = some (.ok t, s')) :
    s' = s ∧ s.tokens.head?.getD .eof = t ∧ (t ≠ .eof → s.tokens = t :: s.tokens.tail) := by
  obtain ⟨ht, rfl⟩ : s.tokens.head?.getD .eof = t ∧ s = s' := by simpa [token] using h
  refine ⟨rfl, ht, fun hne => ?_⟩
  cases htokens : s.tokens with
  | nil =>
    rw [htokens] at ht
    exact absurd ht.symm hne
  | cons first rest =>
    rw [htokens] at ht
    obtain rfl : first = t := ht
    rfl

theorem nextToken_eq_ok {u : Unit} (h : nextToken s = some (.ok u, s')) :
    s' = { s with tokens := s.tokens.tail } := by
  simpa [nextToken, update, eq_comm] using h

/-- A token is skipped, and the result is known already. -/
theorem skipped_eq_ok {α : Type} {x y : α}
    (h : (do nextToken; return x : Parser F D α) s = some (.ok y, s')) :
    x = y ∧ s' = { s with tokens := s.tokens.tail } := by
  obtain ⟨u, s2, hnext, hend⟩ := bind_eq_ok.mp h
  obtain ⟨rfl, rfl⟩ := pure_eq_ok.mp hend
  exact ⟨rfl, nextToken_eq_ok hnext⟩

theorem isOperator_eq_ok {op : Operator} {b : Bool} (h : isOperator op s = some (.ok b, s')) :
    s' = s ∧ (b = true → s.tokens = .operator op :: s.tokens.tail) := by
  obtain ⟨t, s1, htoken, hrest⟩ := bind_eq_ok.mp h
  obtain ⟨rfl, -, hfirst⟩ := token_eq_ok htoken
  obtain ⟨rfl, rfl⟩ := pure_eq_ok.mp hrest
  refine ⟨rfl, fun hb => ?_⟩
  cases t with
  | operator op' =>
    obtain rfl : op' = op := by simpa [Token.isOperator] using hb
    exact hfirst nofun
  | _ => simp [Token.isOperator] at hb

/-- The state behind the first token. -/
def behind (s : ParserState F D) : ParserState F D := { s with tokens := s.tokens.tail }

theorem expectOr_eq_ok {op : Operator} {msg : String} {u : Unit}
    (h : expectOr op msg s = some (.ok u, s')) :
    s' = behind s ∧ s.tokens = .operator op :: s.tokens.tail := by
  obtain ⟨b, s1, hop, hrest⟩ := bind_eq_ok.mp h
  obtain ⟨rfl, hfirst⟩ := isOperator_eq_ok hop
  cases b with
  | false => simp [raiseError, raise] at hrest
  | true => exact ⟨nextToken_eq_ok hrest, hfirst rfl⟩

theorem separator_eq_ok {needComma : Bool} {msg : String} {u : Unit}
    (h : separator needComma msg s = some (.ok u, s')) :
    s'.functions = s.functions ∧
      s.tokens = (if needComma then [.operator (.single ',')] else []) ++ s'.tokens := by
  cases needComma with
  | false =>
    obtain ⟨-, rfl⟩ := pure_eq_ok.mp h
    exact ⟨rfl, rfl⟩
  | true =>
    obtain ⟨rfl, hfirst⟩ := expectOr_eq_ok h
    exact ⟨rfl, hfirst⟩

theorem takeIdentifier_eq_ok {msg name : String}
    (h : takeIdentifier msg s = some (.ok name, s')) :
    s' = behind s ∧ s.tokens = .identifier name :: s'.tokens := by
  obtain ⟨t, s1, htoken, hrest⟩ := bind_eq_ok.mp h
  obtain ⟨rfl, -, hfirst⟩ := token_eq_ok htoken
  cases t with
  | identifier name' =>
    obtain ⟨rfl, rfl⟩ := skipped_eq_ok hrest
    exact ⟨rfl, hfirst nofun⟩
  | _ => simp [raiseError, raise] at hrest

/-- The captured variables are the identifiers up to the closing bracket, and not too many. -/
theorem parseCaptures_eq_ok {varNames names : List String} (hlength : varNames.length ≤ maxArgs)
    (h : parseCaptures rounds varNames s = some (.ok names, s')) :
    names.length ≤ maxArgs ∧ ∃ more, names = varNames ++ more ∧
      s.tokens = separated (fun name => [.identifier name]) (!varNames.isEmpty) more ++
        .operator (.single ']') :: s'.tokens := by
  induction rounds generalizing varNames s with
  | zero => simp [parseCaptures, diverge] at h
  | succ rounds ih =>
    obtain ⟨closed, s1, hop, hrest⟩ := bind_eq_ok.mp h
    obtain ⟨rfl, hfirst⟩ := isOperator_eq_ok hop
    cases closed with
    | true =>
      obtain ⟨rfl, rfl⟩ := skipped_eq_ok hrest
      exact ⟨hlength, [], (List.append_nil _).symm, hfirst rfl⟩
    | false =>
      obtain ⟨u, s2, hseparator, hnext⟩ := bind_eq_ok.mp hrest
      obtain ⟨-, hcomma⟩ := separator_eq_ok hseparator
      obtain ⟨t, s3, htoken, hchecked⟩ := bind_eq_ok.mp hnext
      obtain ⟨rfl, hhead, -⟩ := token_eq_ok htoken
      split at hchecked
      · simp [raiseError, raise] at hchecked
      · next hroom =>
        obtain ⟨name, s4, htake, hmore⟩ := bind_eq_ok.mp hchecked
        obtain ⟨-, hname⟩ := takeIdentifier_eq_ok htake
        have hne : varNames.length ≠ maxArgs := by
          intro heq
          rw [hname] at hhead
          exact hroom ⟨by rw [← hhead]; rfl, heq⟩
        have hroom' : (varNames ++ [name]).length ≤ maxArgs := by
          rw [List.length_append, List.length_singleton]
          omega
        obtain ⟨hle, more, rfl, htokens⟩ := ih hroom' hmore
        have hnonempty : (varNames ++ [name]).isEmpty = false := by simp
        refine ⟨hle, name :: more, List.append_assoc _ _ _, ?_⟩
        rw [hcomma, hname, htokens, hnonempty]
        simp [separated]

/-- A word before the name of a parameter is one of the words for types. -/
theorem parseParameterType_eq_ok {typeWord : Option String}
    (h : parseParameterType s = some (.ok typeWord, s')) :
    s.tokens = typeWord.toList.map .identifier ++ s'.tokens := by
  obtain ⟨next, s1, hlookahead, hrest⟩ := bind_eq_ok.mp h
  obtain ⟨-, rfl⟩ := Prod.ext_iff.mp (Option.some.inj hlookahead)
  split at hrest
  · obtain ⟨t, s2, htoken, hrest⟩ := bind_eq_ok.mp hrest
    obtain ⟨rfl, -, hfirst⟩ := token_eq_ok htoken
    cases t with
    | identifier id =>
      change (if (parameterType id).isSome then _ else raiseError typeExpected :
        Parser F D (Option String)) _ = _ at hrest
      split at hrest
      · obtain ⟨u, s3, hnext, hend⟩ := bind_eq_ok.mp hrest
        obtain ⟨rfl, rfl⟩ := pure_eq_ok.mp hend
        obtain rfl := nextToken_eq_ok hnext
        exact hfirst nofun
      · simp [raiseError, raise] at hrest
    | _ => simp [raiseError, raise] at hrest
  · obtain ⟨rfl, rfl⟩ := pure_eq_ok.mp hrest
    rfl

/-- A parameter's name is checked against the names before it and the size of the buffer. -/
theorem parseParameterName_eq_ok {params : Parameters} {typeWord : Option String}
    {d : Declaration} (h : parseParameterName params typeWord s = some (.ok d, s')) :
    d.typeWord = typeWord ∧
      s.tokens = (if d.quoted then .string d.name else .identifier d.name) :: s'.tokens ∧
      (d.quoted = false → params.namedArgFound = false) ∧
      (d.quoted = true → params.paramTypes.length + d.name.length < 4000) := by
  obtain ⟨t, s1, htoken, hrest⟩ := bind_eq_ok.mp h
  obtain ⟨rfl, -, hfirst⟩ := token_eq_ok htoken
  cases t with
  | identifier name =>
    change (if params.namedArgFound then raiseError _ else _ : Parser F D Declaration) _ = _
      at hrest
    split at hrest
    · simp [raiseError, raise] at hrest
    · next hfound =>
      obtain ⟨rfl, rfl⟩ := skipped_eq_ok hrest
      exact ⟨rfl, hfirst (by simp), fun _ => by simpa using hfound, by simp⟩
  | string name =>
    change (if params.paramTypes.length + name.length ≥ 4000 then raiseError _ else _ :
      Parser F D Declaration) _ = _ at hrest
    split at hrest
    · simp [raiseError, raise] at hrest
    · next hroom =>
      obtain ⟨rfl, rfl⟩ := skipped_eq_ok hrest
      exact ⟨rfl, hfirst (by simp), (by simp), fun _ => Nat.lt_of_not_ge hroom⟩
  | _ => simp [raiseError, raise] at hrest

theorem parseParameter_eq_ok {params params' : Parameters} (hfits : params.Fits)
    (h : parseParameter params s = some (.ok params', s')) :
    ∃ d : Declaration, params' = params.add d ∧ s.tokens = d.tokens ++ s'.tokens ∧
      params'.Fits := by
  unfold parseParameter at h
  split at h
  · simp [raiseError, raise] at h
  · next hnames =>
    obtain ⟨typeWord, s1, htype, hrest⟩ := bind_eq_ok.mp h
    obtain ⟨d, s2, hname, hend⟩ := bind_eq_ok.mp hrest
    obtain ⟨rfl, rfl⟩ := pure_eq_ok.mp hend
    obtain ⟨rfl, htokens, hplain, hquoted⟩ := parseParameterName_eq_ok hname
    refine ⟨d, rfl, ?_, hfits.add hnames d hplain hquoted⟩
    rw [parseParameterType_eq_ok htype, htokens, Declaration.tokens, List.append_assoc]
    rfl

/-- The parameters are the declarations up to the closing parenthesis. -/
theorem parseParameters_eq_ok {params params' : Parameters} (hfits : params.Fits)
    (h : parseParameters rounds params s = some (.ok params', s')) :
    params'.Fits ∧ ∃ ds : List Declaration, params' = ds.foldl .add params ∧
      s.tokens = separated Declaration.tokens (!params.paramNames.isEmpty) ds ++
        .operator (.single ')') :: s'.tokens := by
  induction rounds generalizing params s with
  | zero => simp [parseParameters, diverge] at h
  | succ rounds ih =>
    obtain ⟨closed, s1, hop, hrest⟩ := bind_eq_ok.mp h
    obtain ⟨rfl, hfirst⟩ := isOperator_eq_ok hop
    cases closed with
    | true =>
      obtain ⟨rfl, rfl⟩ := skipped_eq_ok hrest
      exact ⟨hfits, [], rfl, hfirst rfl⟩
    | false =>
      obtain ⟨u, s2, hseparator, hrest⟩ := bind_eq_ok.mp hrest
      obtain ⟨-, hcomma⟩ := separator_eq_ok hseparator
      obtain ⟨params1, s3, hparameter, hrest⟩ := bind_eq_ok.mp hrest
      obtain ⟨d, rfl, hd, hfits1⟩ := parseParameter_eq_ok hfits hparameter
      obtain ⟨hfits', ds, rfl, htokens⟩ := ih hfits1 hrest
      have hnonempty : (params.add d).paramNames.isEmpty = false := by
        simp [Parameters.add]
      refine ⟨hfits', d :: ds, rfl, ?_⟩
      rw [hcomma, hd, htokens, hnonempty]
      simp [separated]

theorem parseFunctionName_eq_ok {name : Option String}
    (h : parseFunctionName s = some (.ok name, s')) :
    s.tokens = name.toList.map .identifier ++ s'.tokens := by
  obtain ⟨t, s1, htoken, hrest⟩ := bind_eq_ok.mp h
  obtain ⟨rfl, -, hfirst⟩ := token_eq_ok htoken
  cases t with
  | identifier name =>
    obtain ⟨rfl, rfl⟩ := skipped_eq_ok hrest
    exact hfirst nofun
  | _ =>
    obtain ⟨rfl, rfl⟩ := pure_eq_ok.mp hrest
    rfl

/-- Only an anonymous definition captures variables. -/
theorem parseCaptureList_eq_ok {name : Option String} {varNames : List String}
    (h : parseCaptureList rounds name s = some (.ok varNames, s')) :
    varNames.length ≤ maxArgs ∧
      (varNames = [] ∧ s' = s ∨ name = none ∧
        s.tokens = .operator (.single '[') ::
          separated (fun name => [.identifier name]) false varNames ++
            .operator (.single ']') :: s'.tokens) := by
  obtain ⟨opened, s1, hop, hrest⟩ := bind_eq_ok.mp h
  obtain ⟨rfl, hfirst⟩ := isOperator_eq_ok hop
  cases opened with
  | false =>
    obtain ⟨rfl, rfl⟩ := pure_eq_ok.mp hrest
    exact ⟨Nat.zero_le _, .inl ⟨rfl, rfl⟩⟩
  | true =>
    cases name with
    | some name => simp [raiseError, raise] at hrest
    | none =>
      obtain ⟨u, s2, hnext, hcaptures⟩ := bind_eq_ok.mp hrest
      obtain rfl := nextToken_eq_ok hnext
      obtain ⟨hle, more, rfl, htokens⟩ := parseCaptures_eq_ok (Nat.zero_le _) hcaptures
      refine ⟨hle, .inr ⟨rfl, ?_⟩⟩
      rw [hfirst rfl, List.cons_append]
      exact congrArg _ htokens

theorem parseParameterList_eq_ok {params : Parameters}
    (h : parseParameterList rounds s = some (.ok params, s')) :
    params.Fits ∧ ∃ ds : List Declaration, params = ds.foldl .add .empty ∧
      (ds = [] ∧ s' = s ∨
        s.tokens = .operator (.single '(') :: separated Declaration.tokens false ds ++
          .operator (.single ')') :: s'.tokens) := by
  obtain ⟨braced, s1, hop, hrest⟩ := bind_eq_ok.mp h
  obtain ⟨rfl, -⟩ := isOperator_eq_ok hop
  cases braced with
  | true =>
    obtain ⟨rfl, rfl⟩ := pure_eq_ok.mp hrest
    exact ⟨Parameters.fits_empty, [], rfl, .inl ⟨rfl, rfl⟩⟩
  | false =>
    obtain ⟨u, s2, hopen, hparameters⟩ := bind_eq_ok.mp hrest
    obtain ⟨rfl, hfirst⟩ := expectOr_eq_ok hopen
    obtain ⟨hfits, ds, rfl, htokens⟩ := parseParameters_eq_ok Parameters.fits_empty hparameters
    refine ⟨hfits, ds, rfl, .inr ?_⟩
    rw [hfirst, List.cons_append]
    exact congrArg _ htokens

theorem addFunction_eq_ok {name paramTypes : String} {body : Exp F D} {paramFloats : List Bool}
    {paramNames : List String} {u : Unit}
    (h : addFunction name paramTypes body paramFloats paramNames s = some (.ok u, s')) :
    s'.functions = s.functions ++
      [⟨some name, some ("_" ++ name), paramTypes, .script body paramFloats paramNames⟩] := by
  unfold addFunction at h
  split at h
  · obtain rfl : _ = s' := (Prod.ext_iff.mp (Option.some.inj h)).2
    rfl
  · simp [raiseError, raise] at h

/-- A definition that the parser accepts is spelled out in the tokens, its parameters and its
signature are within the sizes of the arrays and of the buffer, and they are what a call gets
to see. -/
theorem parseFunctionDefinition_eq_ok {knot : Knot F D} {source : Source} {exp : Exp F D}
    (h : parseFunctionDefinition knot source rounds s = some (.ok exp, s')) :
    ∃ (d : Definition F D) (head rest : List (Token D)), d.Spelled head ∧
      s.tokens = head ++ rest ∧ d.Makes s' exp ∧ d.varNames.length ≤ maxArgs ∧
      d.parameters.length ≤ maxArgs ∧ (signature d.parameters).length < 4096 := by
  obtain ⟨name, s1, hname, hrest1⟩ := bind_eq_ok.mp h
  obtain ⟨varNames, s2, hcaptures, hrest2⟩ := bind_eq_ok.mp hrest1
  obtain ⟨params, s3, hparams, hrest3⟩ := bind_eq_ok.mp hrest2
  obtain ⟨line, s4, hline, hrest4⟩ := bind_eq_ok.mp hrest3
  obtain ⟨block, s5, hblock, hend⟩ := bind_eq_ok.mp hrest4
  obtain ⟨hvars, hcaptured⟩ := parseCaptureList_eq_ok hcaptures
  obtain ⟨hfits, ds, rfl, hspelled⟩ := parseParameterList_eq_ok hparams
  obtain ⟨htypes, hfloats, hnames⟩ := Parameters.foldl_add ds Parameters.empty
  let d : Definition F D := ⟨name, varNames, ds, .rootBlock (block.getD (.constant .undefined))⟩
  have hlength := hfits.length_lt
  have hcount := hfits.names
  rw [htypes] at hlength
  rw [hnames] at hcount
  have hcapturesSpelled : ∃ tokens, d.CapturesSpelled tokens ∧ s1.tokens = tokens ++ s2.tokens := by
    obtain ⟨rfl, rfl⟩ | ⟨-, htokens⟩ := hcaptured
    · exact ⟨[], .inl ⟨rfl, rfl⟩, rfl⟩
    · exact ⟨_, .inr rfl, by simp [htokens, d]⟩
  have hparamsSpelled : ∃ tokens, d.ParametersSpelled tokens ∧ s2.tokens = tokens ++ s3.tokens := by
    obtain ⟨rfl, rfl⟩ | htokens := hspelled
    · exact ⟨[], .inl ⟨rfl, rfl⟩, rfl⟩
    · exact ⟨_, .inr rfl, by simp [htokens, d]⟩
  obtain ⟨captures, hcapturesTokens, hs1⟩ := hcapturesSpelled
  obtain ⟨paramTokens, hparamsTokens, hs2⟩ := hparamsSpelled
  have htokens : s.tokens = (name.toList.map .identifier ++ captures ++ paramTokens) ++
      s3.tokens := by
    rw [parseFunctionName_eq_ok hname, hs1, hs2]
    simp
  have hmakes : d.Makes s' exp := by
    rw [htypes, hfloats, hnames] at hend
    cases name with
    | none =>
      obtain ⟨rfl, -⟩ := pure_eq_ok.mp hend
      exact .anonymous rfl
    | some name =>
      obtain ⟨u, s6, hadd, hpure⟩ := bind_eq_ok.mp hend
      obtain ⟨rfl, rfl⟩ := pure_eq_ok.mp hpure
      have hnone : varNames = [] := by
        obtain ⟨rfl, -⟩ | ⟨hname, -⟩ := hcaptured
        · rfl
        · exact absurd hname (Option.some_ne_none name)
      exact .legacy rfl hnone (addFunction_eq_ok hadd)
  refine ⟨d, _, _, ⟨captures, paramTokens, hcapturesTokens, hparamsTokens, rfl⟩, htokens, hmakes,
    hvars, ?_, hlength⟩
  simpa [Parameters.empty] using hcount

end ScriptParser

end Language

end AviSynth
