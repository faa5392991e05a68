import Phy6212.CLib.Strings

/-!
# The address of a server

`http_init` takes a URL apart in a copy. The port is behind the last colon, and the path begins
where `strtol` stops, or at the first slash.
-/

namespace Phy6212.Http

open List CLib

inductive Fault where
  | nullPointer
  | outOfBounds
  | badFree
  deriving DecidableEq, Repr

/-- Which of the copies and buffers can be allocated, and whether the network connects. -/
structure Env where
  urlCopied : Bool
  pathCopied : Bool
  buffered : Bool
  hostCopied : Bool
  connects : Bool
  deriving DecidableEq, Repr

structure Attempt where
  host : List UInt8
  port : Int
  path : List UInt8
  deriving DecidableEq, Repr

structure Result where
  attempt : Option Attempt
  returned : Bool
  deriving DecidableEq, Repr

def schemeLength : Nat := 7

def readText (mem : List UInt8) (place : Nat) : Except Fault (List UInt8) :=
  match textAt mem place with
  | some text => .ok text
  | none => .error .outOfBounds

/-- The port, and where the path starts: the colon is overwritten, and the number behind it is read.
-/
def splitPort (url : List UInt8) : Except Fault (List UInt8 × Int × Option Nat) := do
  let host ← readText url schemeLength
  match strrchr host 0x3A with
  | some colon =>
    let url := url.set (schemeLength + colon) 0
    let portStr ← readText url (schemeLength + colon + 1)
    let (port, length) := strtol 10 portStr
    return (url, port, some (schemeLength + colon + 1 + length))
  | none => return (url, 80, (strchr host 0x2F).map (schemeLength + ·))

def httpInit (env : Env) (path : List UInt8) : Except Fault Result := do
  if env.urlCopied = false then throw .nullPointer
  let (url, port, endPoint) ← splitPort (path ++ [0])
  match endPoint with
  | none => throw .badFree
  | some endPoint =>
    let stored ← readText url endPoint
    if env.pathCopied = false then throw .badFree
    -- the buffer is cleared before it is checked
    if env.buffered = false then throw .nullPointer
    let url := url.set endPoint 0
    let host ← readText url schemeLength
    if env.hostCopied = false then return ⟨none, false⟩
    return ⟨some ⟨host, port, stored⟩, env.connects⟩

structure HostName where
  text : List UInt8
  nonzero : 0 ∉ text
  noColon : 0x3A ∉ text
  noSlash : 0x2F ∉ text

structure PortNumber where
  digits : List UInt8
  some_ : digits ≠ []
  decimal : ∀ byte ∈ digits, isDigit 10 byte = true
  small : numeral 10 digits < 65536

structure UrlPath where
  rest : List UInt8
  nonzero : 0 ∉ rest

def UrlPath.text (path : UrlPath) : List UInt8 := 0x2F :: path.rest

def scheme : List UInt8 := [0x68, 0x74, 0x74, 0x70, 0x3A, 0x2F, 0x2F]

theorem length_scheme : scheme.length = schemeLength := rfl

def portText : Option PortNumber → List UInt8
  | some port => 0x3A :: port.digits
  | none => []

def urlOf (host : HostName) (port : Option PortNumber) (path : UrlPath) : List UInt8 :=
  scheme ++ (host.text ++ (portText port ++ path.text))

def portOf : Option PortNumber → Int
  | some port => numeral 10 port.digits
  | none => 80

/-- `http_init` connects to the host and the port, and stores the path. -/
def Connects (env : Env) (host : HostName) (port : Option PortNumber) (path : UrlPath) : Prop :=
  httpInit env (urlOf host port path) =
    .ok ⟨some ⟨host.text, portOf port, path.text⟩, env.connects⟩

def Env.Enough (env : Env) : Prop :=
  env.urlCopied = true ∧ env.pathCopied = true ∧ env.buffered = true ∧ env.hostCopied = true

variable {before after text : List UInt8}

theorem readText_append (before : List UInt8) (nonzero : 0 ∉ text) (after : List UInt8)
    {place : Nat}
    (there : before.length = place) :
    readText (before ++ (text ++ 0 :: after)) place = .ok text := by
  subst there
  rw [readText, textAt_append before nonzero]

theorem set_append (before : List UInt8) (byte value : UInt8) (after : List UInt8) {place : Nat}
    (there : before.length = place) :
    (before ++ byte :: after).set place value = before ++ value :: after := by
  subst there
  rw [set_append_right _ _ (Nat.le_refl _), Nat.sub_self, set_cons_zero]

theorem splitPort_colon (nonzeroBefore : 0 ∉ before) (nonzeroAfter : 0 ∉ after)
    (last : 0x3A ∉ after) :
    splitPort (scheme ++ (before ++ 0x3A :: after) ++ [0]) =
      .ok (scheme ++ (before ++ 0 :: (after ++ [0])), (strtol 10 after).1,
        some (schemeLength + before.length + 1 + (strtol 10 after).2)) := by
  have nonzero : 0 ∉ before ++ 0x3A :: after := by
    rw [mem_append, mem_cons, not_or, not_or]
    exact ⟨nonzeroBefore, by decide, nonzeroAfter⟩
  have host : readText (scheme ++ (before ++ 0x3A :: after) ++ [0]) schemeLength =
      .ok (before ++ 0x3A :: after) := by
    exact readText_append scheme nonzero [] rfl
  have place : (scheme ++ before).length = schemeLength + before.length := length_append
  have cut : (scheme ++ (before ++ 0x3A :: after) ++ [0]).set (schemeLength + before.length) 0 =
      scheme ++ (before ++ 0 :: (after ++ [0])) := by
    have set := set_append _ 0x3A 0 (after ++ [0]) place
    simpa only [append_assoc, cons_append] using set
  have portStr : readText (scheme ++ (before ++ 0 :: (after ++ [0])))
      (schemeLength + before.length + 1) = .ok after := by
    have behind : (scheme ++ before ++ [0]).length = schemeLength + before.length + 1 := by
      rw [length_append, place]
      rfl
    have read := readText_append _ nonzeroAfter [] behind
    simpa only [append_assoc, cons_append, nil_append] using read
  unfold splitPort
  rw [host]
  simp only [bind, Except.bind, strrchr_append before last, cut, portStr]
  rfl

theorem splitPort_slash (nonzeroBefore : 0 ∉ before) (nonzeroAfter : 0 ∉ after)
    (noColonBefore : 0x3A ∉ before) (noColonAfter : 0x3A ∉ after) (first : 0x2F ∉ before) :
    splitPort (scheme ++ (before ++ 0x2F :: after) ++ [0]) =
      .ok (scheme ++ (before ++ 0x2F :: after) ++ [0], 80, some (schemeLength + before.length)) := by
  have nonzero : 0 ∉ before ++ 0x2F :: after := by
    rw [mem_append, mem_cons, not_or, not_or]
    exact ⟨nonzeroBefore, by decide, nonzeroAfter⟩
  have noColon : 0x3A ∉ before ++ 0x2F :: after := by
    rw [mem_append, mem_cons, not_or, not_or]
    exact ⟨noColonBefore, by decide, noColonAfter⟩
  have host : readText (scheme ++ (before ++ 0x2F :: after) ++ [0]) schemeLength =
      .ok (before ++ 0x2F :: after) := by
    exact readText_append scheme nonzero [] rfl
  unfold splitPort
  rw [host]
  simp only [bind, Except.bind, (strrchr_eq_none_iff _ _).mpr noColon, strchr_append first]
  rfl

variable {env : Env} {host : HostName} {port : Option PortNumber} {path : UrlPath}

theorem UrlPath.zero_not_mem (path : UrlPath) : 0 ∉ path.text := by
  rw [UrlPath.text, mem_cons, not_or]
  exact ⟨by decide, path.nonzero⟩

theorem PortNumber.not_mem (port : PortNumber) {byte : UInt8} (other : isDigit 10 byte = false) :
    byte ∉ port.digits := by
  intro member
  rw [port.decimal byte member] at other
  cases other

def cutPort : Option PortNumber → List UInt8
  | some port => 0 :: port.digits
  | none => []

theorem splitPort_urlOf (noColon : 0x3A ∉ path.text) :
    splitPort (urlOf host port path ++ [0]) =
      .ok (scheme ++ host.text ++ cutPort port ++ 0x2F :: (path.rest ++ [0]), portOf port,
        some (scheme ++ host.text ++ cutPort port).length) := by
  have noColonRest : 0x3A ∉ path.rest := fun member => noColon (mem_cons_of_mem _ member)
  cases port with
  | none =>
    have split := splitPort_slash host.nonzero path.nonzero host.noColon noColonRest host.noSlash
    simpa only [urlOf, portText, cutPort, portOf, UrlPath.text, nil_append, append_nil,
      append_assoc, cons_append, length_append, length_scheme] using split
  | some port =>
    have nonzero : 0 ∉ port.digits ++ path.text := by
      rw [mem_append, not_or]
      exact ⟨port.not_mem rfl, path.zero_not_mem⟩
    have last : 0x3A ∉ port.digits ++ path.text := by
      rw [mem_append, not_or]
      exact ⟨port.not_mem rfl, noColon⟩
    have stops : ∀ byte ∈ path.text.head?, isDigit 10 byte = false := by
      intro byte first
      cases first
      rfl
    have number := strtol_digits port.some_ port.decimal stops
    have fits : saturate (numeral 10 port.digits) = numeral 10 port.digits := by
      have small := port.small
      unfold saturate longMax
      omega
    have split := splitPort_colon host.nonzero nonzero last
    rw [number, fits] at split
    have place : (scheme ++ host.text ++ (0 :: port.digits)).length =
        schemeLength + host.text.length + 1 + port.digits.length := by
      rw [length_append, length_append, length_cons, length_scheme]
      omega
    rw [cutPort, place]
    simpa only [urlOf, portText, portOf, UrlPath.text, append_assoc, cons_append] using split

theorem readText_host (rest : List UInt8) :
    readText (scheme ++ host.text ++ cutPort port ++ 0 :: rest) schemeLength = .ok host.text := by
  cases port with
  | none =>
    have read := readText_append scheme host.nonzero rest length_scheme
    simpa only [cutPort, append_nil, append_assoc] using read
  | some port =>
    have read := readText_append scheme host.nonzero (port.digits ++ 0 :: rest) length_scheme
    simpa only [cutPort, append_assoc, cons_append] using read

variable {stored : List UInt8}

theorem httpInit_of_split {url cut name : List UInt8} {port : Int} {endPoint : Nat}
    (enough : env.Enough) (split : splitPort (url ++ [0]) = .ok (cut, port, some endPoint))
    (path : readText cut endPoint = .ok stored)
    (host : readText (cut.set endPoint 0) schemeLength = .ok name) :
    httpInit env url = .ok ⟨some ⟨name, port, stored⟩, env.connects⟩ := by
  obtain ⟨urlCopied, pathCopied, buffered, hostCopied⟩ := enough
  simp [httpInit, bind, Except.bind, pure, Except.pure, split, path, host, urlCopied, pathCopied,
    buffered, hostCopied]

theorem httpInit_attempt {url : List UInt8} {attempt : Attempt} {returned : Bool}
    (ok : httpInit env url = .ok ⟨some attempt, returned⟩) :
    env.Enough ∧ ∃ cut endPoint, splitPort (url ++ [0]) = .ok (cut, attempt.port, some endPoint) ∧
      readText cut endPoint = .ok attempt.path := by
  unfold httpInit at ok
  simp only [bind, Except.bind, pure, Except.pure, throw, throwThe, MonadExceptOf.throw] at ok
  split at ok
  · cases ok
  rename_i urlCopied
  split at ok
  · cases ok
  rename_i parts split
  obtain ⟨cut, port, endPoint⟩ := parts
  dsimp only at ok
  split at ok
  · cases ok
  rename_i endPoint
  split at ok
  · cases ok
  rename_i stored path
  split at ok
  · cases ok
  rename_i pathCopied
  split at ok
  · cases ok
  rename_i buffered
  split at ok
  · cases ok
  rename_i name host
  split at ok
  · cases ok
  rename_i hostCopied
  cases ok
  exact ⟨⟨by simpa using urlCopied, by simpa using pathCopied, by simpa using buffered,
    by simpa using hostCopied⟩, cut, endPoint, split, path⟩

theorem readText_noColon {length : Nat} (last : 0x3A ∉ after)
    (read : readText (scheme ++ (before ++ 0 :: (after ++ [0])))
      (schemeLength + before.length + 1 + length) = .ok stored) : 0x3A ∉ stored := by
  intro member
  have found : textAt (scheme ++ (before ++ 0 :: (after ++ [0])))
      (schemeLength + before.length + 1 + length) = some stored := by
    unfold readText at read
    split at read
    · next text found =>
      cases read
      exact found
    · cases read
  have behind : (scheme ++ before ++ [0]).length = schemeLength + before.length + 1 := by
    rw [length_append, length_append, length_scheme]
    rfl
  have inside := mem_of_textAt found member
  rw [← drop_drop, ← behind] at inside
  have block : scheme ++ (before ++ 0 :: (after ++ [0])) = scheme ++ before ++ [0] ++ (after ++ [0]) := by
    simp
  rw [block, drop_left] at inside
  rcases mem_append.mp (mem_of_mem_drop inside) with colon | zero
  · exact last colon
  · exact absurd (mem_singleton.mp zero) (by decide)

theorem noColon_of_connects (connects : Connects env host port path) : 0x3A ∉ path.text := by
  obtain ⟨-, cut, endPoint, split, read⟩ := httpInit_attempt connects
  intro colon
  -- the last colon of the URL is one of the path
  obtain ⟨before, after, whole, last⟩ : ∃ before after,
      host.text ++ (portText port ++ path.text) = before ++ 0x3A :: after ∧ 0x3A ∉ after := by
    cases found : strrchr (host.text ++ (portText port ++ path.text)) 0x3A with
    | none =>
      have absent := (strrchr_eq_none_iff _ _).mp found
      exact absurd (mem_append_right _ (mem_append_right _ colon)) absent
    | some place =>
      obtain ⟨before, after, whole, -, last⟩ := (strrchr_eq_some_iff _ _ _).mp found
      exact ⟨before, after, whole, last⟩
  have nonzero : 0 ∉ host.text ++ (portText port ++ path.text) := by
    have portNonzero : 0 ∉ portText port := by
      cases port with
      | none => exact not_mem_nil
      | some port =>
        rw [portText, mem_cons, not_or]
        exact ⟨by decide, port.not_mem rfl⟩
    rw [mem_append, mem_append, not_or, not_or]
    exact ⟨host.nonzero, portNonzero, path.zero_not_mem⟩
  rw [whole, mem_append, mem_cons, not_or, not_or] at nonzero
  rw [urlOf, whole, splitPort_colon nonzero.1 nonzero.2.2 last, Except.ok.injEq, Prod.mk.injEq,
    Prod.mk.injEq, Option.some.injEq] at split
  obtain ⟨rfl, -, rfl⟩ := split
  exact readText_noColon last read colon

/-- **Which addresses are understood**: `http_init` connects to the host and the port and stores the
path exactly when there is no colon in the path and enough memory. -/
theorem httpInit_connects_iff (env : Env) (host : HostName) (port : Option PortNumber)
    (path : UrlPath) : Connects env host port path ↔ 0x3A ∉ path.text ∧ env.Enough := by
  constructor
  · intro connects
    exact ⟨noColon_of_connects connects, (httpInit_attempt connects).1⟩
  rintro ⟨noColon, enough⟩
  apply httpInit_of_split enough (splitPort_urlOf noColon)
  · exact readText_append _ path.zero_not_mem [] rfl
  · rw [set_append _ _ _ _ rfl]
    exact readText_host _

def allWell : Env := ⟨true, true, true, true, true⟩

def hostH : HostName := ⟨[0x68], by decide, by decide, by decide⟩

def pathWithColon : UrlPath := ⟨[0x61, 0x3A, 0x62], by decide⟩

/-- **A colon in the path**: for "http://h/a:b" the host is taken to be "h/a", the port 0 and the
path "b". -/
theorem colon_in_path :
    ¬ Connects allWell hostH none pathWithColon ∧
      httpInit allWell (urlOf hostH none pathWithColon) =
        .ok ⟨some ⟨[0x68, 0x2F, 0x61], 0, [0x62]⟩, true⟩ := by
  have result : httpInit allWell (urlOf hostH none pathWithColon) =
      .ok ⟨some ⟨[0x68, 0x2F, 0x61], 0, [0x62]⟩, true⟩ := by
    rfl
  refine ⟨?_, result⟩
  intro connects
  have host := congrArg Attempt.path (Option.some.inj (congrArg Result.attempt
    (Except.ok.inj (connects.symm.trans result))))
  cases host

end Phy6212.Http
