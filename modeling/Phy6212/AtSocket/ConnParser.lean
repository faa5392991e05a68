import Phy6212.CLib.Strings
import Phy6212.CLib.Tokens

/-!
# The argument of the socket start command

`at_parse_start_arg` splits its argument at the commas and parses the fields as a table says for the
type of the connection, `TYPE_NULL` until the second field has set it.
-/

namespace Phy6212.AtSocket

open List CLib

/-- A parser is called that the table does not have. -/
inductive Fault where
  | nullFunction
  deriving DecidableEq, Repr

/-- What the network says about a name: `inet_addr` and `gethostbyname`. -/
structure Net where
  inetAddr : List UInt8 → UInt32
  getHostByName : List UInt8 → Option UInt32

def ipaddrNone : UInt32 := 0xFFFFFFFF

def minCipId : Nat := 0

def maxCipId : Nat := 2

def atMaxArgCnt : Nat := 5

inductive ConnType where
  | null
  | tcpServer
  | tcpClient
  | udpUnicast
  deriving DecidableEq, Repr

def ConnType.text : ConnType → List UInt8
  | .null => ['n', 'u', 'l', 'l'].map Char.toUInt8
  | .tcpServer => ['t', 'c', 'p', '_', 's', 'e', 'r', 'v', 'e', 'r'].map Char.toUInt8
  | .tcpClient => ['t', 'c', 'p', '_', 'c', 'l', 'i', 'e', 'n', 't'].map Char.toUInt8
  | .udpUnicast => ['u', 'd', 'p', '_', 'u', 'n', 'i', 'c', 'a', 's', 't'].map Char.toUInt8

/-- `at_conn_t`, without the members that the parser leaves at zero. -/
structure Conn where
  id : Int := 0
  type : ConnType := .null
  ipAddr : UInt32 := 0
  rport : Int := 0
  lport : Int := 0
  deriving DecidableEq, Repr

def atParseId (conn : Conn) (data : List UInt8) : Option Conn :=
  if data.length ≠ 1 ∨ isDigit 10 (data.headD 0) = false then none
  else
    let cid := (atoi data % 256).toNat
    if cid < minCipId ∨ maxCipId < cid then none else some { conn with id := cid }

def namedTypes : List ConnType := [.tcpServer, .tcpClient, .udpUnicast]

def atParseType (conn : Conn) (data : List UInt8) : Option Conn :=
  (namedTypes.find? fun type => type.text = data).map fun type => { conn with type }

def atParseIp (net : Net) (conn : Conn) (data : List UInt8) : Option Conn :=
  if net.inetAddr data = ipaddrNone then
    (net.getHostByName data).map fun ipAddr => { conn with ipAddr }
  else some { conn with ipAddr := net.inetAddr data }

def parsePort (data : List UInt8) : Option Int :=
  if 0 < atoi data ∧ atoi data ≤ 65535 then some (atoi data) else none

def atParseLport (conn : Conn) (data : List UInt8) : Option Conn :=
  (parsePort data).map fun lport => { conn with lport }

def atParseRport (conn : Conn) (data : List UInt8) : Option Conn :=
  (parsePort data).map fun rport => { conn with rport }

inductive Parser where
  | id
  | type
  | ip
  | rport
  | lport
  deriving DecidableEq, Repr

def Parser.parse (net : Net) : Parser → Conn → List UInt8 → Option Conn
  | .id => atParseId
  | .type => atParseType
  | .ip => atParseIp net
  | .rport => atParseRport
  | .lport => atParseLport

/-- `at_parse_func_t`: the range of the number of fields and, for each, whether it has to be
there and its parser. -/
structure ParseFunc where
  minLen : Nat
  maxLen : Nat
  parseArg : List (Bool × Parser)

def parseFunc : ConnType → ParseFunc
  | .null => ⟨2, 5, [(true, .id), (true, .type)]⟩
  | .tcpServer => ⟨3, 3, [(true, .id), (true, .type), (true, .lport)]⟩
  | .tcpClient => ⟨4, 5, [(true, .id), (true, .type), (true, .ip), (true, .rport), (false, .lport)]⟩
  | .udpUnicast => ⟨5, 5, [(true, .id), (true, .type), (true, .ip), (true, .rport), (true, .lport)]⟩

/-- The loop of `at_parse_start_arg`, from the field with the given number on. -/
def parseLoop (net : Net) (argCnt : Nat) : Nat → List (List UInt8) → Conn → Except Fault (Option Conn)
  | _, [], conn => .ok (some conn)
  | i, data :: rest, conn =>
    let func := parseFunc conn.type
    if argCnt < func.minLen ∨ func.maxLen < argCnt then .ok none
    else
      -- the members that the table does not initialise are zeros
      match func.parseArg[i]? with
      | none => if data = [] then parseLoop net argCnt (i + 1) rest conn else .error .nullFunction
      | some (must, parser) =>
        if must = false ∧ data = [] then parseLoop net argCnt (i + 1) rest conn
        else
          match parser.parse net conn data with
          | none => .ok none
          | some conn => parseLoop net argCnt (i + 1) rest conn

def comma : UInt8 := 0x2C

def atParseStartArg (net : Net) (zalloc : Bool) (data : List UInt8) : Except Fault (Option Conn) :=
  if zalloc then
    let atData := strsplit atMaxArgCnt data [comma]
    parseLoop net atData.length 0 atData {}
  else .ok none

/-- The values of the fields, put into a connection one after the other. -/
def parseFields (net : Net) : List (Bool × Parser) → List (List UInt8) → Conn → Option Conn
  | (must, parser) :: columns, data :: rest, conn =>
    if must = false ∧ data = [] then parseFields net columns rest conn
    else (parser.parse net conn data).bind (parseFields net columns rest)
  | _, _, conn => some conn

/-- The fields describe the connection: the second one names a type, their number is one that
this type has, and they parse to the values of the connection. -/
def Described (net : Net) (fields : List (List UInt8)) (conn : Conn) : Prop :=
  ∃ name ∈ fields[1]?, ∃ type ∈ namedTypes, type.text = name ∧
    (parseFunc type).minLen ≤ fields.length ∧ fields.length ≤ (parseFunc type).maxLen ∧
    parseFields net (parseFunc type).parseArg fields {} = some conn

/-- The fields are not empty, and there are one, three, four or five of them; or there are five
and only the last one is empty. -/
def Regular (fields : List (List UInt8)) : Prop :=
  [] ∉ fields ∧ fields.length ≠ 2 ∧ fields.length ≤ atMaxArgCnt ∨
    fields.length = atMaxArgCnt ∧ ∃ front, fields = front ++ [[]] ∧ [] ∉ front

variable {net : Net}

theorem find_named_iff (name : List UInt8) (type : ConnType) :
    (namedTypes.find? fun type => type.text = name) = some type ↔
      type ∈ namedTypes ∧ type.text = name := by
  constructor
  · intro found
    have text := find?_some found
    exact ⟨mem_of_find?_eq_some found, by simpa using text⟩
  rintro ⟨member, rfl⟩
  cases type with
  | null => simp [namedTypes] at member
  | tcpServer => rfl
  | tcpClient => rfl
  | udpUnicast => rfl

theorem type_parse {parser : Parser} {conn conn' : Conn} {data : List UInt8}
    (other : parser ≠ .type) (parsed : parser.parse net conn data = some conn') :
    conn'.type = conn.type := by
  cases parser with
  | id =>
    simp only [Parser.parse, atParseId] at parsed
    split at parsed
    · cases parsed
    split at parsed
    · cases parsed
    · cases parsed
      rfl
  | type => exact absurd rfl other
  | ip =>
    simp only [Parser.parse, atParseIp] at parsed
    split at parsed
    · obtain ⟨ipAddr, -, rfl⟩ := Option.map_eq_some_iff.mp parsed
      rfl
    · cases parsed
      rfl
  | rport =>
    obtain ⟨port, -, rfl⟩ := Option.map_eq_some_iff.mp parsed
    rfl
  | lport =>
    obtain ⟨port, -, rfl⟩ := Option.map_eq_some_iff.mp parsed
    rfl

theorem parseLoop_eq {type : ConnType} {argCnt : Nat}
    (range : ¬ (argCnt < (parseFunc type).minLen ∨ (parseFunc type).maxLen < argCnt))
    (rest : List (List UInt8)) {i : Nat} {conn : Conn} {columns : List (Bool × Parser)}
    (typed : conn.type = type) (row : (parseFunc type).parseArg.drop i = columns)
    (keeps : ∀ column ∈ columns, column.2 ≠ .type) (enough : rest.length ≤ columns.length) :
    parseLoop net argCnt i rest conn = .ok (parseFields net columns rest conn) := by
  induction rest generalizing i conn columns with
  | nil => cases columns <;> rfl
  | cons data rest ih =>
    cases columns with
    | nil => cases enough
    | cons column columns =>
      obtain ⟨must, parser⟩ := column
      have here : (parseFunc type).parseArg[i]? = some (must, parser) := by
        rw [← head?_drop, row]
        rfl
      have behind : (parseFunc type).parseArg.drop (i + 1) = columns := by
        rw [← tail_drop, row]
        rfl
      have others : ∀ column ∈ columns, column.2 ≠ .type :=
        fun column member => keeps column (mem_cons_of_mem _ member)
      have fewer : rest.length ≤ columns.length := Nat.le_of_succ_le_succ enough
      rw [parseLoop, typed, if_neg range, here, parseFields]
      dsimp only
      by_cases left_out : must = false ∧ data = []
      · rw [if_pos left_out, if_pos left_out]
        exact ih typed behind others fewer
      rw [if_neg left_out, if_neg left_out]
      cases parsed : parser.parse net conn data with
      | none => rfl
      | some conn' =>
        have kept := type_parse (keeps _ mem_cons_self) parsed
        exact ih (kept.trans typed) behind others fewer

theorem parseArg_columns {type : ConnType} (named : type ∈ namedTypes) :
    ∃ columns, (parseFunc type).parseArg = (true, .id) :: (true, .type) :: columns ∧
      (∀ column ∈ columns, column.2 ≠ .type) ∧ (parseFunc type).maxLen = columns.length + 2 := by
  cases type with
  | null => simp [namedTypes] at named
  | tcpServer => exact ⟨_, rfl, by decide, rfl⟩
  | tcpClient => exact ⟨_, rfl, by decide, rfl⟩
  | udpUnicast => exact ⟨_, rfl, by decide, rfl⟩

theorem parseLoop_head {argCnt : Nat} (many : 2 ≤ argCnt) (few : argCnt ≤ atMaxArgCnt)
    (a b : List UInt8) (rest : List (List UInt8)) :
    parseLoop net argCnt 0 (a :: b :: rest) {} =
      match atParseId {} a with
      | none => .ok none
      | some conn =>
        match namedTypes.find? fun type => type.text = b with
        | none => .ok none
        | some type => parseLoop net argCnt 2 rest { conn with type } := by
  have range : ¬ (argCnt < (parseFunc .null).minLen ∨ (parseFunc .null).maxLen < argCnt) := by
    simp only [parseFunc, atMaxArgCnt] at few ⊢
    omega
  rw [parseLoop, if_neg range]
  cases first : atParseId {} a with
  | none => simp [parseFunc, Parser.parse, first]
  | some conn =>
    have parsed : Parser.parse net .id {} a = some conn := first
    have null : conn.type = .null := type_parse (by decide) parsed
    simp only [parseFunc, Parser.parse, first, getElem?_cons_zero, Bool.true_eq_false,
      false_and, if_false]
    rw [parseLoop, null, if_neg range]
    cases second : namedTypes.find? fun type => type.text = b with
    | none => simp [parseFunc, Parser.parse, atParseType, second]
    | some type => simp [parseFunc, Parser.parse, atParseType, second]

theorem described_iff (a b : List UInt8) (rest : List (List UInt8)) (conn : Conn) :
    Described net (a :: b :: rest) conn ↔ ∃ conn₀ type, atParseId {} a = some conn₀ ∧
      (namedTypes.find? fun type => type.text = b) = some type ∧
      ¬ (rest.length + 2 < (parseFunc type).minLen ∨ (parseFunc type).maxLen < rest.length + 2) ∧
      parseFields net ((parseFunc type).parseArg.drop 2) rest { conn₀ with type } = some conn := by
  have row : ∀ {type : ConnType}, (namedTypes.find? fun type => type.text = b) = some type →
      parseFields net (parseFunc type).parseArg (a :: b :: rest) {} =
        (atParseId {} a).bind fun conn₀ =>
          parseFields net ((parseFunc type).parseArg.drop 2) rest { conn₀ with type } := by
    intro type found
    obtain ⟨columns, row, -⟩ := parseArg_columns ((find_named_iff b type).mp found).1
    rw [row]
    simp [parseFields, Parser.parse, atParseType, found]
  constructor
  · rintro ⟨name, second, type, named, text, least, most, parsed⟩
    obtain rfl : b = name := Option.some.inj second
    have found := (find_named_iff b type).mpr ⟨named, text⟩
    rw [row found] at parsed
    obtain ⟨conn₀, first, parsed⟩ := Option.bind_eq_some_iff.mp parsed
    refine ⟨conn₀, type, first, found, ?_, parsed⟩
    simp only [length_cons] at least most
    omega
  rintro ⟨conn₀, type, first, found, range, parsed⟩
  obtain ⟨named, text⟩ := (find_named_iff b type).mp found
  refine ⟨b, rfl, type, named, text, ?_, ?_, ?_⟩
  · simp only [length_cons]
    omega
  · simp only [length_cons]
    omega
  · rw [row found, first]
    exact parsed

theorem parseLoop_iff {args : List (List UInt8)} (many : 2 < args.length)
    (few : args.length ≤ atMaxArgCnt) :
    ∃ ret, parseLoop net args.length 0 args {} = .ok ret ∧
      ∀ conn, ret = some conn ↔ Described net args conn := by
  obtain ⟨a, b, c, rest, rfl⟩ : ∃ a b c rest, args = a :: b :: c :: rest := by
    match args, many with
    | a :: b :: c :: rest, _ => exact ⟨a, b, c, rest, rfl⟩
  rw [parseLoop_head (Nat.le_of_lt many) few]
  simp only [described_iff]
  cases first : atParseId {} a with
  | none => exact ⟨none, rfl, by simp⟩
  | some conn₀ =>
    cases second : namedTypes.find? fun type => type.text = b with
    | none => exact ⟨none, rfl, by simp⟩
    | some type =>
      by_cases range : (c :: rest).length + 2 < (parseFunc type).minLen ∨
          (parseFunc type).maxLen < (c :: rest).length + 2
      · refine ⟨none, ?_, ?_⟩
        · exact if_pos range
        intro conn
        refine iff_of_false (by simp) ?_
        rintro ⟨_, _, ⟨⟩, ⟨⟩, within, -⟩
        exact within range
      obtain ⟨columns, row, keeps, all⟩ :=
        parseArg_columns ((find_named_iff b type).mp second).1
      have behind : (parseFunc type).parseArg.drop 2 = columns := by
        rw [row]
        rfl
      refine ⟨parseFields net columns (c :: rest) { conn₀ with type }, ?_, ?_⟩
      · exact parseLoop_eq range _ rfl behind keeps (by omega)
      intro conn
      constructor
      · intro parsed
        exact ⟨conn₀, type, rfl, rfl, range, behind ▸ parsed⟩
      · rintro ⟨_, _, ⟨⟩, ⟨⟩, -, parsed⟩
        exact behind ▸ parsed

theorem described_concat_nil {front : List (List UInt8)} (four : front.length = 4) (conn : Conn) :
    Described net (front ++ [[]]) conn ↔ Described net front conn := by
  obtain ⟨a, b, c, d, rfl⟩ : ∃ a b c d, front = [a, b, c, d] := by
    match front, four with
    | [a, b, c, d], _ => exact ⟨a, b, c, d, rfl⟩
  simp only [cons_append, nil_append, described_iff]
  refine exists_congr fun conn₀ => exists_congr fun type => ?_
  cases type with
  | null => simp [namedTypes]
  | tcpServer => simp [parseFunc]
  | tcpClient => simp [parseFunc, parseFields]
  | udpUnicast =>
    have empty : parsePort [] = none := by decide
    simp [parseFunc, parseFields, Parser.parse, atParseLport, empty]

theorem filter_fields {fields : List (List UInt8)} (plain : [] ∉ fields) :
    fields.filter (· ≠ []) = fields := by
  refine filter_eq_self.mpr fun field member => ?_
  have nonempty : field ≠ [] := by
    rintro rfl
    exact plain member
  simpa using nonempty

theorem atParseStartArg_eq (net : Net) (data : List UInt8) :
    atParseStartArg net true data =
      let atData := ((data.splitOn comma).filter (· ≠ [])).take atMaxArgCnt
      parseLoop net atData.length 0 atData {} := by
  have split : tokens [comma] data = (data.splitOn comma).filter (· ≠ []) := by
    unfold tokens splitOn
    congr 2
    funext c
    simp [Bool.beq_eq_decide_eq]
  rw [atParseStartArg, if_pos rfl, strsplit_eq, split]

def offline : Net := ⟨fun _ => ipaddrNone, fun _ => none⟩

end Phy6212.AtSocket
