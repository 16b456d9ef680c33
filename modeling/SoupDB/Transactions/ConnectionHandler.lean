import SoupDB.Lib.Dict
import SoupDB.Transactions.WireErrors

/-!
# SoupDB: the answers of the server

One request of a connection: its payload is decoded, the session runs it, and a frame goes
back.  The engine below (parser, session, executor) is a parameter: whatever it returns or
raises, the handler turns what it catches into an error frame, and it catches the
exceptions of the engine's own family only.

`Asks` says by its layout what a payload asks for, `Acceptable` which requests the engine can be
given.

Main fact: `respond_answers`, exactly when a request is answered by a frame.
-/

namespace SoupDB

namespace Protocol

def OP_PING : Nat := 0x01
def OP_BEGIN : Nat := 0x03
def OP_COMMIT : Nat := 0x04
def OP_ROLLBACK : Nat := 0x05
def OP_QUERY : Nat := 0x06
def OP_PREPARE : Nat := 0x07
def OP_EXECUTE : Nat := 0x08
def OP_DEALLOCATE : Nat := 0x09

def OP_PONG : Nat := 0x02
def OP_OK : Nat := 0x10
def OP_RESULT : Nat := 0x11
def OP_ERROR : Nat := 0x12

def ERR_GENERIC : Nat := 0x00

/-- Map an engine exception to a wire error code. -/
def errorCode : PyError → Nat
  | .QueryParseError _ => 0x01
  | .QueryExecutionError _ => 0x02
  | .DeadlockDetected _ => 0x05
  | .LockNotGranted _ => 0x04
  | .TransactionError _ => 0x03
  | .RecordNotFound _ => 0x06
  | .ContractViolation _ => 0x07
  | .UnsupportedOperation _ => 0x08
  | _ => ERR_GENERIC

end Protocol

open Protocol
open KeyCodec (encodeUtf8)

/-! ## The handler -/

/-- What the handler calls below it, on a session of type `σ`. -/
structure Engine (Statement σ : Type) where
  parse : String → Except PyError Statement
  bindParameters : Statement → List Datum → Except PyError Statement
  beginTransaction : σ → Except PyError Unit × σ
  commit : σ → Except PyError Unit × σ
  rollback : σ → Except PyError Unit × σ
  executeStatement : Statement → σ → Except PyError ResultSet × σ
  /-- The host's text of a value. -/
  repr : Datum → String

/-- What a connection keeps between its requests. -/
structure Connection (Statement σ : Type) where
  prepared : Dict String Statement
  session : σ

namespace ConnectionHandler

variable {Statement σ : Type}

/-- `session.execute(sql)`. -/
def execute (engine : Engine Statement σ) (sql : String) (session : σ) :
    Except PyError ResultSet × σ :=
  match engine.parse sql with
  | .ok statement => engine.executeStatement statement session
  | .error e => (.error e, session)

def errorFrame (code : Nat) (message : String) (version : Nat) : Except PyError Bytes := do
  let payload ← encodeError code message
  encodeFrame OP_ERROR payload version

def okFrame (affected : Int) (version : Nat) : Except PyError Bytes := do
  let payload ← encodeOk affected
  encodeFrame OP_OK payload version

/-- A SELECT is answered by its result, DML and DDL by the rows affected. -/
def resultFrame (engine : Engine Statement σ) (result : ResultSet) (version : Nat) :
    Except PyError Bytes :=
  if result.columns ≠ [] then do
    let payload ← encodeResultset engine.repr result version
    encodeFrame OP_RESULT payload version
  else okFrame result.affected version

/-- `except SoupDBError as exc: return self._error(...)`. -/
def caught (version : Nat) (answer : Except PyError Bytes) : Except PyError Bytes :=
  match answer with
  | .ok frame => .ok frame
  | .error e =>
      if e.isSoupDBError then errorFrame (errorCode e) e.message version else .error e

def dispatch (engine : Engine Statement σ) (version : Nat) (opcode : UInt8) (payload : Bytes)
    (session : σ) : Except PyError Bytes × σ :=
  if opcode.toNat = OP_PING then (caught version (encodeFrame OP_PONG [] version), session)
  else if opcode.toNat = OP_BEGIN then
    let (begun, session) := engine.beginTransaction session
    (caught version (begun >>= fun _ => okFrame 0 version), session)
  else if opcode.toNat = OP_COMMIT then
    let (committed, session) := engine.commit session
    (caught version (committed >>= fun _ => okFrame 0 version), session)
  else if opcode.toNat = OP_ROLLBACK then
    let (rolledBack, session) := engine.rollback session
    (caught version (rolledBack >>= fun _ => okFrame 0 version), session)
  else if opcode.toNat = OP_QUERY then
    match decodeQuery payload with
    | .error e => (caught version (.error e), session)
    | .ok sql =>
        let (result, session) := execute engine sql session
        (caught version (result >>= fun result => resultFrame engine result version), session)
  else
    (caught version (errorFrame ERR_GENERIC s!"unknown opcode {opcode.toNat}" version), session)

def prepare (engine : Engine Statement σ) (version : Nat) (payload : Bytes)
    (prepared : Dict String Statement) : Except PyError Bytes × Dict String Statement :=
  match decodePrepare payload with
  | .error e => (caught version (.error e), prepared)
  | .ok (name, sql) =>
      match engine.parse sql with
      | .error e => (caught version (.error e), prepared)
      | .ok statement => (caught version (okFrame 0 version), prepared.insert name statement)

def executePrepared (engine : Engine Statement σ) (version : Nat) (payload : Bytes)
    (c : Connection Statement σ) : Except PyError Bytes × σ :=
  match decodeExecute payload with
  | .error e => (caught version (.error e), c.session)
  | .ok (name, params) =>
      match c.prepared.lookup name with
      | none =>
          (caught version
            (errorFrame ERR_GENERIC s!"unknown prepared statement {reprStr name}" version),
            c.session)
      | some statement =>
          match engine.bindParameters statement params with
          | .error e => (caught version (.error e), c.session)
          | .ok statement =>
              let (result, session) := engine.executeStatement statement c.session
              (caught version (result >>= fun result => resultFrame engine result version),
                session)

def deallocate (version : Nat) (payload : Bytes) (prepared : Dict String Statement) :
    Except PyError Bytes × Dict String Statement :=
  match decodeDeallocate payload with
  | .error e => (caught version (.error e), prepared)
  | .ok name => (caught version (okFrame 0 version), prepared.erase name)

/-- One round of the loop of a connection: the answer to a frame, or the exception that ends
the connection. -/
def respond (engine : Engine Statement σ) (version : Nat) (opcode : UInt8) (payload : Bytes)
    (c : Connection Statement σ) : Except PyError Bytes × Connection Statement σ :=
  if opcode.toNat = OP_PREPARE then
    let (answer, prepared) := prepare engine version payload c.prepared
    (answer, { c with prepared := prepared })
  else if opcode.toNat = OP_EXECUTE then
    let (answer, session) := executePrepared engine version payload c
    (answer, { c with session := session })
  else if opcode.toNat = OP_DEALLOCATE then
    let (answer, prepared) := deallocate version payload c.prepared
    (answer, { c with prepared := prepared })
  else
    let (answer, session) := dispatch engine version opcode payload c.session
    (answer, { c with session := session })

/-! ## Answers -/

def IsResponse (version : Nat) (frame : Bytes) : Prop :=
  ∃ opcode ∈ [OP_PONG, OP_OK, OP_RESULT, OP_ERROR], ∃ payload,
    encodeFrame opcode payload version = .ok frame

def Answered (version : Nat) (answer : Except PyError Bytes) : Prop :=
  ∃ frame, answer = .ok frame ∧ IsResponse version frame

/-- What the handler does with a computation that ends so is an answer. -/
def Handled (version : Nat) : Except PyError Bytes → Prop
  | .ok frame => IsResponse version frame
  | .error e => Caught e

/-! ## Requests that are answered -/

/-- What a frame asks for. -/
inductive Request where
  | ping
  | begin
  | commit
  | rollback
  | query (sql : String)
  | prepare (name sql : String)
  /-- The parameters, or none where one of them has an unknown tag. -/
  | execute (name : String) (params : Option (List Datum))
  | deallocate (name : String)
  | unknown

def OPCODES : List Nat :=
  [OP_PING, OP_BEGIN, OP_COMMIT, OP_ROLLBACK, OP_QUERY, OP_PREPARE, OP_EXECUTE, OP_DEALLOCATE]

/-- The request that a payload holds under an opcode.  A QUERY is a text, a PREPARE two, an
EXECUTE a text, a count and so many values. -/
inductive Asks (payload : Bytes) : Nat → Request → Prop
  | ping : Asks payload OP_PING .ping
  | begin : Asks payload OP_BEGIN .begin
  | commit : Asks payload OP_COMMIT .commit
  | rollback : Asks payload OP_ROLLBACK .rollback
  | query {sql : String} : ReadsText 4 payload 0 sql → Asks payload OP_QUERY (.query sql)
  | prepare {name sql : String} : ReadsText 2 payload 0 name →
      ReadsText 4 payload (textEnd 2 payload 0) sql → Asks payload OP_PREPARE (.prepare name sql)
  | execute {name : String} {params : Option (List Datum)} : ReadsText 2 payload 0 name →
      paramsStart payload ≤ payload.length →
        ReadsParams payload (paramsCount payload) (paramsStart payload) params →
          Asks payload OP_EXECUTE (.execute name params)
  | deallocate {name : String} : ReadsText 2 payload 0 name →
      Asks payload OP_DEALLOCATE (.deallocate name)
  | unknown {opcode : Nat} : opcode ∉ OPCODES → Asks payload opcode .unknown

/-- What the engine raises, if anything, is caught. -/
def Guarded {α : Type} (x : Except PyError α) : Prop := ∀ e, x = .error e → Caught e

/-- A result without columns is answered by the rows affected, in four bytes.  Another one has
its counts and columns in their fields, and either every cell in its own and all of it in the
length of a payload, or first of all a tuple that is no point. -/
def ResultFits (repr : Datum → String) (version : Nat) (result : ResultSet) : Prop :=
  if result.columns = [] then 0 ≤ result.affected ∧ result.affected < 2 ^ 32
  else HeaderFits result ∧
    (((∀ value ∈ result.rows.flatten, ValueFits value) ∧ resultSize version result < 2 ^ 32) ∨
      Refused repr result.rows.flatten)

/-- The engine runs a statement to a result that fits, or raises what is caught. -/
def Runs (engine : Engine Statement σ) (version : Nat) (session : σ) (statement : Statement) :
    Prop :=
  Guarded (engine.executeStatement statement session).1 ∧
    ∀ result, (engine.executeStatement statement session).1 = .ok result →
      ResultFits engine.repr version result

/-- What the engine raises on the request is caught, and the results and the names that go back
fit. -/
def Acceptable (engine : Engine Statement σ) (version : Nat) (c : Connection Statement σ) :
    Request → Prop
  | .begin => Guarded (engine.beginTransaction c.session).1
  | .commit => Guarded (engine.commit c.session).1
  | .rollback => Guarded (engine.rollback c.session).1
  | .query sql => Guarded (engine.parse sql) ∧
      ∀ statement, engine.parse sql = .ok statement → Runs engine version c.session statement
  | .prepare _ sql => Guarded (engine.parse sql)
  | .execute name (some params) =>
      match c.prepared.lookup name with
      | none => TextFits s!"unknown prepared statement {reprStr name}"
      | some statement => Guarded (engine.bindParameters statement params) ∧
          ∀ bound, engine.bindParameters statement params = .ok bound →
            Runs engine version c.session bound
  | .ping | .execute _ none | .deallocate _ | .unknown => True

/-- The payload holds a request of its opcode, and the engine can be given it. -/
def Answerable (engine : Engine Statement σ) (version : Nat) (opcode : UInt8) (payload : Bytes)
    (c : Connection Statement σ) : Prop :=
  ∃ request, Asks payload opcode.toNat request ∧ Acceptable engine version c request

/-! ## Frames that fit -/

variable {engine : Engine Statement σ} {version : Nat}

theorem encode_frame_eq (hversion : Supported version) {opcode : Nat} (hopcode : opcode < 256)
    (payload : Bytes) :
    (payload.length < 2 ^ 32 ∧ ∃ frame, encodeFrame opcode payload version = .ok frame) ∨
      (¬ payload.length < 2 ^ 32 ∧ ∃ text, encodeFrame opcode payload version =
        .error (.StructError text)) := by
  have hbyte : ∀ n : Nat, n < 256 → ∃ field, pack 1 n = .ok field := by
    intro n hn
    exact pack_returns.mpr ⟨Int.natCast_nonneg n, by rw [Int.toNat_natCast]; omega⟩
  have hversionLt : version < 256 := by
    rcases hversion with rfl | rfl <;> decide
  obtain ⟨versionField, hversionField⟩ := hbyte version hversionLt
  obtain ⟨opcodeField, hopcodeField⟩ := hbyte opcode hopcode
  by_cases hlength : payload.length < 2 ^ 32
  · obtain ⟨lengthField, hlengthField⟩ : ∃ field, pack 4 payload.length = .ok field :=
      pack_returns.mpr ⟨Int.natCast_nonneg _, by rw [Int.toNat_natCast]; exact hlength⟩
    left
    refine ⟨hlength, MAGIC ++ versionField ++ opcodeField ++ lengthField ++ payload, ?_⟩
    simp only [encodeFrame, if_pos hversion, hversionField, hopcodeField, hlengthField, ok_bind]
  · right
    refine ⟨hlength, "argument out of range", ?_⟩
    have hpack : pack 4 payload.length = .error (.StructError "argument out of range") := by
      refine pack_error ?_
      rw [Int.toNat_natCast]
      exact fun h => hlength h.2
    simp only [encodeFrame, if_pos hversion, hversionField, hopcodeField, hpack, ok_bind,
      error_bind]

/-- No exception of the host language is caught. -/
theorem not_caught_struct (text : String) : ¬ Caught (.StructError text) := by
  rintro ⟨hcaught, _⟩
  cases hcaught

theorem handled_frame (hversion : Supported version) {opcode : Nat}
    (hopcode : opcode ∈ [OP_PONG, OP_OK, OP_RESULT, OP_ERROR]) (payload : Bytes) :
    Handled version (encodeFrame opcode payload version) ↔ payload.length < 2 ^ 32 := by
  have hlt : opcode < 256 := by
    simp only [List.mem_cons, List.not_mem_nil, or_false] at hopcode
    rcases hopcode with rfl | rfl | rfl | rfl <;> decide
  rcases encode_frame_eq hversion hlt payload with
    ⟨hlength, frame, hframe⟩ | ⟨hlength, text, hframe⟩
  · rw [hframe]
    exact ⟨fun _ => hlength, fun _ => ⟨opcode, hopcode, payload, hframe⟩⟩
  · rw [hframe]
    exact ⟨fun h => absurd h (not_caught_struct text), fun h => absurd h hlength⟩

variable {α : Type} {x : Except PyError α}

theorem handled_bind {f : α → Except PyError Bytes} :
    Handled version (x >>= f) ↔ Passes x (fun a => Handled version (f a)) := by
  cases x with
  | ok a => exact Iff.rfl
  | error e => exact Iff.rfl

theorem handled_ok_frame (hversion : Supported version) (affected : Int) :
    Handled version (okFrame affected version) ↔ 0 ≤ affected ∧ affected < 2 ^ 32 := by
  have hreturns := @pack_returns 4 affected
  rw [okFrame, encodeOk, handled_bind]
  cases hpack : pack 4 affected with
  | ok field =>
      have hlength := length_pack hpack
      obtain ⟨hle, hlt⟩ := hreturns.mp ⟨field, hpack⟩
      refine iff_of_true ?_ ⟨hle, by omega⟩
      exact (handled_frame hversion (by simp) field).mpr (by omega)
  | error e =>
      have hrange : ¬ (0 ≤ affected ∧ affected < 2 ^ 32) := by
        rintro ⟨hle, hlt⟩
        obtain ⟨field, hfield⟩ := hreturns.mpr ⟨hle, by omega⟩
        rw [hpack] at hfield
        cases hfield
      refine iff_of_false ?_ hrange
      rw [pack_error (fun h => hrange ⟨h.1, by omega⟩)] at hpack
      cases hpack
      exact not_caught_struct _

theorem error_frame_ok (hversion : Supported version) {code : Nat} (hcode : code < 256)
    {message : String} (hfits : TextFits message) :
    ∃ frame, errorFrame code message version = .ok frame ∧ IsResponse version frame := by
  obtain ⟨codeField, hcodeField⟩ : ∃ field, pack 1 code = .ok field :=
    pack_returns.mpr ⟨Int.natCast_nonneg _, by rw [Int.toNat_natCast]; omega⟩
  obtain ⟨text, htext⟩ := encode_text_returns.mpr hfits
  obtain ⟨length, hlength, rfl⟩ := encode_text_eq_ok.mp htext
  have hshort : (codeField ++ (length ++ encodeUtf8 message)).length < 2 ^ 32 := by
    simp only [List.length_append, length_pack hcodeField, length_pack hlength]
    unfold TextFits at hfits
    omega
  rcases encode_frame_eq hversion (by decide : OP_ERROR < 256)
    (codeField ++ (length ++ encodeUtf8 message)) with ⟨_, frame, hframe⟩ | ⟨hlong, _⟩
  · refine ⟨frame, ?_, OP_ERROR, by simp, _, hframe⟩
    rw [errorFrame, encodeError, hcodeField, ok_bind, htext, ok_bind, ok_bind, hframe]
  · exact absurd hshort hlong

theorem handled_error_frame (hversion : Supported version) {code : Nat} (hcode : code < 256)
    (message : String) : Handled version (errorFrame code message version) ↔ TextFits message := by
  by_cases hfits : TextFits message
  · obtain ⟨frame, hframe, hresponse⟩ := error_frame_ok hversion hcode hfits
    rw [hframe]
    exact iff_of_true hresponse hfits
  · refine iff_of_false ?_ hfits
    obtain ⟨codeField, hcodeField⟩ : ∃ field, pack 1 code = .ok field :=
      pack_returns.mpr ⟨Int.natCast_nonneg _, by rw [Int.toNat_natCast]; omega⟩
    have htext : encodeText 2 message = .error (.StructError "argument out of range") := by
      rw [encodeText, pack_error, error_bind]
      rw [Int.toNat_natCast]
      exact fun h => hfits h.2
    rw [errorFrame, encodeError, hcodeField, ok_bind, htext]
    exact not_caught_struct _

theorem error_code_lt (e : PyError) : errorCode e < 256 := by
  unfold errorCode
  split <;> decide

theorem answered_caught (hversion : Supported version) (answer : Except PyError Bytes) :
    Answered version (caught version answer) ↔ Handled version answer := by
  cases answer with
  | ok frame =>
      constructor
      · rintro ⟨_, hframe, hresponse⟩
        cases hframe
        exact hresponse
      · intro hresponse
        exact ⟨frame, rfl, hresponse⟩
  | error e =>
      rw [caught]
      by_cases hcaught : e.isSoupDBError = true
      · rw [if_pos hcaught]
        constructor
        · rintro ⟨frame, hframe, hresponse⟩
          have herror := handled_error_frame hversion (error_code_lt e) e.message
          rw [hframe] at herror
          exact ⟨hcaught, herror.mp hresponse⟩
        · rintro ⟨_, hfits⟩
          exact error_frame_ok hversion (error_code_lt e) hfits
      · rw [if_neg hcaught]
        constructor
        · rintro ⟨frame, hframe, _⟩
          cases hframe
        · rintro ⟨h, _⟩
          exact absurd h hcaught

theorem guarded_ok (a : α) : Guarded (.ok a : Except PyError α) := by
  intro e h
  cases h

/-- A computation of the engine, and then its result. -/
theorem passes_guarded {P : α → Prop} : Passes x P ↔ Guarded x ∧ ∀ a, x = .ok a → P a := by
  cases x with
  | ok a => simp [Passes, Guarded]
  | error e => simp [Passes, Guarded]

theorem handled_result_frame (hversion : Supported version) (result : ResultSet) :
    Handled version (resultFrame engine result version) ↔
      ResultFits engine.repr version result := by
  by_cases hcolumns : result.columns = []
  · rw [resultFrame, if_neg (not_not_intro hcolumns), ResultFits, if_pos hcolumns]
    exact handled_ok_frame hversion result.affected
  · rw [resultFrame, if_pos hcolumns, ResultFits, if_neg hcolumns, handled_bind,
      ← passes_encode_resultset hversion (Q := fun n => n < 2 ^ 32)]
    exact Passes.congr (fun payload => handled_frame hversion (by simp) payload)

theorem passes_runs (hversion : Supported version) (session : σ) (statement : Statement) :
    Passes (engine.executeStatement statement session).1
        (fun result => Handled version (resultFrame engine result version)) ↔
      Runs engine version session statement := by
  rw [passes_guarded, Runs]
  simp only [handled_result_frame hversion]

theorem handled_zero (hversion : Supported version) : Handled version (okFrame 0 version) :=
  (handled_ok_frame hversion 0).mpr (by decide)

theorem unknown_opcode_fits (opcode : UInt8) : TextFits s!"unknown opcode {opcode.toNat}" :=
  text_byte_fits "unknown opcode " (by decide) opcode

/-! ## What each request is answered -/

section

variable (hversion : Supported version)
include hversion

theorem answered_prepare (payload : Bytes) (prepared : Dict String Statement) :
    Answered version (prepare engine version payload prepared).1 ↔
      ∃ name sql, ReadsText 2 payload 0 name ∧ ReadsText 4 payload (textEnd 2 payload 0) sql ∧
        Guarded (engine.parse sql) := by
  rw [← passes_decode_prepare (P := fun r => Guarded (engine.parse r.2)), prepare]
  cases hdecode : decodePrepare payload with
  | error e =>
      dsimp only
      exact answered_caught hversion _
  | ok r =>
      obtain ⟨name, sql⟩ := r
      cases hparse : engine.parse sql with
      | error e =>
          simp only [hparse, Passes, Guarded, Except.error.injEq, forall_eq']
          exact answered_caught hversion _
      | ok statement =>
          simp only [hparse, Passes, Guarded, reduceCtorEq, false_implies, implies_true, iff_true]
          exact (answered_caught hversion _).mpr (handled_zero hversion)

theorem answered_execute_prepared (payload : Bytes) (c : Connection Statement σ) :
    Answered version (executePrepared engine version payload c).1 ↔
      ∃ name params, ReadsText 2 payload 0 name ∧ paramsStart payload ≤ payload.length ∧
        ReadsParams payload (paramsCount payload) (paramsStart payload) params ∧
          ∀ values, params = some values →
            Acceptable engine version c (.execute name (some values)) := by
  rw [← passes_decode_execute (P := fun r => Acceptable engine version c
    (.execute r.1 (some r.2))), executePrepared]
  cases hdecode : decodeExecute payload with
  | error e =>
      dsimp only
      exact answered_caught hversion _
  | ok r =>
      obtain ⟨name, params⟩ := r
      dsimp only [Passes, Acceptable]
      cases hlookup : c.prepared.lookup name with
      | none =>
          have hcode : ERR_GENERIC < 256 := by decide
          dsimp only
          rw [answered_caught hversion, handled_error_frame hversion hcode]
      | some statement =>
          dsimp only
          rw [← passes_guarded]
          cases hbind : engine.bindParameters statement params with
          | error e =>
              dsimp only
              exact answered_caught hversion _
          | ok bound =>
              refine (answered_caught hversion _).trans (handled_bind.trans ?_)
              exact passes_runs hversion c.session bound

theorem answered_deallocate (payload : Bytes) (prepared : Dict String Statement) :
    Answered version (deallocate version payload prepared).1 ↔
      ∃ name, ReadsText 2 payload 0 name := by
  have hdecodes := @passes_decode_deallocate payload (fun _ => True)
  simp only [and_true] at hdecodes
  rw [← hdecodes, deallocate]
  cases hdecode : decodeDeallocate payload with
  | error e =>
      dsimp only
      exact answered_caught hversion _
  | ok name =>
      simp only [Passes, iff_true]
      exact (answered_caught hversion _).mpr (handled_zero hversion)

/-- Begin, commit and rollback: the outcome of the session, then an empty OK. -/
theorem answered_boundary (outcome : Except PyError Unit) :
    Answered version (caught version (outcome >>= fun _ => okFrame 0 version)) ↔
      Guarded outcome := by
  refine (answered_caught hversion _).trans (handled_bind.trans (passes_guarded.trans ?_))
  exact and_iff_left (fun _ _ => handled_zero hversion)

theorem answered_query (payload : Bytes) (session : σ) :
    Answered version
        (match decodeQuery payload with
          | .error e => (caught version (.error e), session)
          | .ok sql =>
              let (result, session) := execute engine sql session
              (caught version (result >>= fun result => resultFrame engine result version),
                session)).1 ↔
      ∃ sql, ReadsText 4 payload 0 sql ∧ Guarded (engine.parse sql) ∧
        ∀ statement, engine.parse sql = .ok statement → Runs engine version session statement := by
  rw [← passes_decode_query (P := fun sql => Guarded (engine.parse sql) ∧
    ∀ statement, engine.parse sql = .ok statement → Runs engine version session statement)]
  cases hdecode : decodeQuery payload with
  | error e =>
      dsimp only
      exact answered_caught hversion _
  | ok sql =>
      refine (answered_caught hversion _).trans (handled_bind.trans ?_)
      rw [execute, Passes, ← passes_guarded]
      cases engine.parse sql with
      | error e => exact Iff.rfl
      | ok statement => exact passes_runs hversion session statement

end

/-- Whatever the engine, the state of the connection, the opcode and the payload: the request is
answered by a response frame exactly when the payload holds a request of its opcode, what the
engine raises on it is one of the exceptions the handler catches, and what goes back fits its
frame. -/
theorem respond_answers (engine : Engine Statement σ) (version : Nat)
    (hversion : Supported version) (opcode : UInt8) (payload : Bytes) (c : Connection Statement σ) :
    Answered version (respond engine version opcode payload c).1 ↔
      Answerable engine version opcode payload c := by
  rw [respond]
  by_cases hprepare : opcode.toNat = OP_PREPARE
  · rw [if_pos hprepare, Answerable, hprepare]
    refine (answered_prepare hversion payload c.prepared).trans ⟨?_, ?_⟩
    · rintro ⟨name, sql, hname, hsql, hguarded⟩
      exact ⟨_, .prepare hname hsql, hguarded⟩
    · rintro ⟨_, hasks, hacceptable⟩
      cases hasks with
      | prepare hname hsql => exact ⟨_, _, hname, hsql, hacceptable⟩
      | unknown hunknown => exact absurd (by decide) hunknown
  rw [if_neg hprepare]
  by_cases hexecute : opcode.toNat = OP_EXECUTE
  · rw [if_pos hexecute, Answerable, hexecute]
    refine (answered_execute_prepared hversion payload c).trans ⟨?_, ?_⟩
    · rintro ⟨name, params, hname, hle, hparams, hacceptable⟩
      refine ⟨_, .execute hname hle hparams, ?_⟩
      cases params with
      | none => trivial
      | some values => exact hacceptable values rfl
    · rintro ⟨_, hasks, hacceptable⟩
      cases hasks with
      | execute hname hle hparams =>
          exact ⟨_, _, hname, hle, hparams, fun values hvalues => hvalues ▸ hacceptable⟩
      | unknown hunknown => exact absurd (by decide) hunknown
  rw [if_neg hexecute]
  by_cases hdeallocate : opcode.toNat = OP_DEALLOCATE
  · rw [if_pos hdeallocate, Answerable, hdeallocate]
    refine (answered_deallocate hversion payload c.prepared).trans ⟨?_, ?_⟩
    · rintro ⟨name, hname⟩
      exact ⟨_, .deallocate hname, trivial⟩
    · rintro ⟨_, hasks, _⟩
      cases hasks with
      | deallocate hname => exact ⟨_, hname⟩
      | unknown hunknown => exact absurd (by decide) hunknown
  rw [if_neg hdeallocate]
  dsimp only
  rw [dispatch]
  by_cases hping : opcode.toNat = OP_PING
  · rw [if_pos hping, Answerable, hping]
    refine iff_of_true ?_ ⟨_, .ping, trivial⟩
    refine (answered_caught hversion _).mpr ?_
    exact (handled_frame hversion (by simp) []).mpr (by decide)
  rw [if_neg hping]
  by_cases hbegin : opcode.toNat = OP_BEGIN
  · rw [if_pos hbegin, Answerable, hbegin]
    refine (answered_boundary hversion _).trans ⟨fun h => ⟨_, .begin, h⟩, ?_⟩
    rintro ⟨_, hasks, hacceptable⟩
    cases hasks with
    | begin => exact hacceptable
    | unknown hunknown => exact absurd (by decide) hunknown
  rw [if_neg hbegin]
  by_cases hcommit : opcode.toNat = OP_COMMIT
  · rw [if_pos hcommit, Answerable, hcommit]
    refine (answered_boundary hversion _).trans ⟨fun h => ⟨_, .commit, h⟩, ?_⟩
    rintro ⟨_, hasks, hacceptable⟩
    cases hasks with
    | commit => exact hacceptable
    | unknown hunknown => exact absurd (by decide) hunknown
  rw [if_neg hcommit]
  by_cases hrollback : opcode.toNat = OP_ROLLBACK
  · rw [if_pos hrollback, Answerable, hrollback]
    refine (answered_boundary hversion _).trans ⟨fun h => ⟨_, .rollback, h⟩, ?_⟩
    rintro ⟨_, hasks, hacceptable⟩
    cases hasks with
    | rollback => exact hacceptable
    | unknown hunknown => exact absurd (by decide) hunknown
  rw [if_neg hrollback]
  by_cases hquery : opcode.toNat = OP_QUERY
  · rw [if_pos hquery, Answerable, hquery]
    refine (answered_query hversion payload c.session).trans ⟨?_, ?_⟩
    · rintro ⟨sql, hsql, hruns⟩
      exact ⟨_, .query hsql, hruns⟩
    · rintro ⟨_, hasks, hacceptable⟩
      cases hasks with
      | query hsql => exact ⟨_, hsql, hacceptable⟩
      | unknown hunknown => exact absurd (by decide) hunknown
  rw [if_neg hquery]
  have hunknown : opcode.toNat ∉ OPCODES := by
    simp only [OPCODES, List.mem_cons, List.not_mem_nil, or_false, not_or]
    exact ⟨hping, hbegin, hcommit, hrollback, hquery, hprepare, hexecute, hdeallocate⟩
  refine iff_of_true ((answered_caught hversion _).mpr ?_) ⟨_, .unknown hunknown, trivial⟩
  exact (handled_error_frame hversion (by decide) _).mpr (unknown_opcode_fits opcode)

/-! ## Two requests -/

/-- An engine that answers a statement by its parameters. -/
def echoEngine : Engine (List Datum) Unit where
  parse _ := .ok []
  bindParameters _ params := .ok params
  beginTransaction session := (.ok (), session)
  commit session := (.ok (), session)
  rollback session := (.ok (), session)
  executeStatement params session :=
    (.ok ⟨params.map (fun _ => ⟨"p", .INT, none⟩), [params], 0⟩, session)
  repr _ := ""

/-- A prepared statement, executed with the parameters 7 and NULL. -/
theorem respond_answers_execute :
    Answered VERSION (respond echoEngine VERSION 0x08 [0, 1, 113, 0, 2, 1, 0, 0, 0, 7, 0]
      ⟨(∅ : Dict String (List Datum)).insert "q" [], ()⟩).1 := by
  refine (respond_answers echoEngine VERSION (.inr rfl) 0x08 _ _).mpr ?_
  have hparams : ReadsParams [0, 1, 113, 0, 2, 1, 0, 0, 0, 7, 0] 2 5 (some [.int 7, .null]) :=
    .cons (.int rfl (by decide)) (.cons (.null rfl) (.nil _))
  refine ⟨.execute "q" (some [.int 7, .null]), .execute ⟨by decide, by decide +kernel⟩ (by decide)
    hparams, ?_⟩
  have hlookup : ((∅ : Dict String (List Datum)).insert "q" []).lookup "q" = some [] :=
    AList.lookup_insert _
  have hruns : Runs echoEngine VERSION () [.int 7, .null] := by
    have hcolumn : ColumnFits ⟨"p", .INT, none⟩ := ⟨by unfold TextFits; decide, by decide⟩
    refine ⟨guarded_ok _, fun result hresult => ?_⟩
    cases hresult
    refine ⟨⟨by decide, by simp [hcolumn], by decide⟩, .inl ⟨?_, by decide⟩⟩
    simp [ValueFits]
  rw [Acceptable, hlookup]
  refine ⟨guarded_ok _, fun bound hbound => ?_⟩
  cases hbound
  exact hruns

/-- The payload of a query that ends before the length of its text: the exception leaves the
handler. -/
theorem truncated_query_not_answered :
    ¬ ∀ (Statement σ : Type) (engine : Engine Statement σ) (version : Nat), Supported version →
      ∀ (opcode : UInt8) (payload : Bytes) (c : Connection Statement σ),
        Answered version (respond engine version opcode payload c).1 := by
  intro hall
  obtain ⟨frame, hframe, _⟩ :=
    hall (List Datum) Unit echoEngine VERSION (.inr rfl) 0x06 [] ⟨∅, ()⟩
  cases hframe

end ConnectionHandler
end SoupDB
