import Adapta.Lib.Settled
import Adapta.Chat.Backend

/-!
# The protocol of an Ollama host

`generate_stream` of `adapta/core/backends/ollama_backend.py` reads the answer of an Ollama host:
one object a line, of which the last says `done`.

`Adapta.Chat.Backend` takes what an engine answers as a `Reply`.  Here are the objects on the
wire, and a `Transcript` says which lines carry which tokens, counts and failure.  Whatever
carries a reply, the backend does with it what `Adapta.Chat.Backend` says: its stream yields the
deltas and leaves the handle with the counts of the last line (`generateStream_refines`).

## What is abstracted

* The HTTP client: a response is its status and its lines, and whether reading it raised.
* `int` of a string or a float is a parameter.
-/

namespace Adapta.Chat.Ollama

open Api Lib

/-- What depends on floats and on the texts of numbers. -/
structure Python where
  canon : FloatText → FloatText
  /-- `int` of a string or a float, or `none` if it raises. -/
  int : Json → Option Int

/-! ## Answers -/

/-- An error of the HTTP client. -/
inductive HttpError where
  | timeout
  | other
deriving DecidableEq, Repr

/-- `_failed`. -/
def failed : HttpError → DomainError
  | .timeout => .timeout "Inference timed out"
  | .other => .inferenceFailed "Inference failed"

/-- Whether a value counts as true. -/
def truthy : Json → Bool
  | .null => false
  | .bool b => b
  | .int n => n ≠ 0
  | .float x => x.text ≠ "0.0".toList && x.text ≠ "-0.0".toList
  | .str s => s ≠ []
  | .arr l => !l.isEmpty
  | .obj l => !l.isEmpty

/-- The field is there and counts as true. -/
def flag (frame : Fields) (key : String) : Bool := (getField frame (str key)).any truthy

/-- `int(frame.get(key) or 0)`, or `none` if it raises. -/
def count (py : Python) (frame : Fields) (key : String) : Option Int :=
  match (getField frame (str key)).filter truthy with
  | none => some 0
  | some (.int n) => some n
  | some (.bool _) => some 1
  | some (.arr _) | some (.obj _) => none
  | some v => py.int v

/-- `frame.get("message", {}).get("content", "")`, or `none` if it raises. -/
def contentOf (frame : Fields) : Option Json :=
  match getField frame (str "message") with
  | none => some (.str [])
  | some (.obj message) => some ((getField message (str "content")).getD (.str []))
  | some _ => none

/-- A response that is read line by line. -/
structure Response where
  status : Nat
  lines : List Str
  /-- Reading raises after these lines. -/
  broken : Option HttpError

/-- What `generate_stream` does. -/
structure Streamed where
  yielded : List Json
  /-- `handle.usage`, if it is set. -/
  usage : Option (Int × Int)
  raised : Option DomainError

/-- A token is yielded before the rest. -/
def Streamed.after (token : Json) (rest : Streamed) : Streamed :=
  if truthy token then { rest with yielded := token :: rest.yielded } else rest

/-- The loop over the lines. -/
def streamLines (py : Python) (broken : Option HttpError) : List Str → Streamed
  | [] => ⟨[], none, broken.map failed⟩
  | line :: rest =>
      if strip line = [] then streamLines py broken rest
      else
        match loads py.canon line with
        | some (.obj frame) =>
            if flag frame "error" then ⟨[], none, some (.inferenceFailed "Inference failed")⟩
            else if flag frame "done" then
              match count py frame "prompt_eval_count", count py frame "eval_count" with
              | some p, some n => ⟨[], some (p, n), none⟩
              | _, _ => ⟨[], none, some .other⟩
            else
              match contentOf frame with
              | some token => (streamLines py broken rest).after token
              | none => ⟨[], none, some .other⟩
        -- a line that is no JSON, or no object
        | _ => ⟨[], none, some .other⟩

/-- `generate_stream`. -/
def generateStream (py : Python) (response : Except HttpError Response) : Streamed :=
  match response with
  | .error e => ⟨[], none, some (failed e)⟩
  | .ok r =>
      if 400 ≤ r.status then
        ⟨[], none, some ((r.broken.map failed).getD (.inferenceFailed "Inference failed"))⟩
      else streamLines py r.broken r.lines

/-! ## What the host says -/

/-- A frame with a token. -/
structure IsToken (frame : Fields) (token : Str) : Prop where
  error : flag frame "error" = false
  done : flag frame "done" = false
  content : contentOf frame = some (.str token)

/-- A count that the host sends, or leaves out. -/
def Counts (frame : Fields) (key : String) (n : Option Nat) : Prop :=
  getField frame (str key) = n.map fun n ↦ .int n

/-- The last frame of a stream. -/
structure IsDone (frame : Fields) (promptEvalCount evalCount : Option Nat) : Prop where
  error : flag frame "error" = false
  done : flag frame "done" = true
  promptEvalCount : Counts frame "prompt_eval_count" promptEvalCount
  evalCount : Counts frame "eval_count" evalCount

/-- The lines of a stream, and whether it broke, that carry the tokens, the counts and the failure
of a reply. -/
inductive Transcript (py : Python) (promptEvalCount evalCount : Option Nat)
    (broken : Option HttpError) : List Str → Bool → Option DomainError → List Str → Prop
  | blank {tokens done raised line rest} : strip line = [] →
      Transcript py promptEvalCount evalCount broken tokens done raised rest →
      Transcript py promptEvalCount evalCount broken tokens done raised (line :: rest)
  | token {tokens done raised line rest frame token} : strip line ≠ [] →
      loads py.canon line = some (.obj frame) → IsToken frame token →
      Transcript py promptEvalCount evalCount broken tokens done raised rest →
      Transcript py promptEvalCount evalCount broken (token :: tokens) done raised (line :: rest)
  | done {line rest frame} : strip line ≠ [] → loads py.canon line = some (.obj frame) →
      IsDone frame promptEvalCount evalCount →
      Transcript py promptEvalCount evalCount broken [] true none (line :: rest)
  | error {line rest frame} : strip line ≠ [] → loads py.canon line = some (.obj frame) →
      flag frame "error" = true →
      Transcript py promptEvalCount evalCount broken [] false
        (some (.inferenceFailed "Inference failed")) (line :: rest)
  | closed : Transcript py promptEvalCount evalCount broken [] false (broken.map failed) []

variable {py : Python} {broken : Option HttpError} {promptEvalCount evalCount : Option Nat}
  {tokens : List Str} {done : Bool} {raised : Option DomainError} {lines : List Str}
  {frame : Fields}

theorem count_of_counts {key : String} {n : Option Nat} (h : Counts frame key n) :
    count py frame key = some ((n.getD 0 : Nat) : Int) := by
  rw [Counts] at h
  rw [count, h]
  cases n with
  | none => rfl
  | some n =>
      cases n with
      | zero => rfl
      | succ n =>
          have hne : truthy (.int ((n + 1 : Nat) : Int)) = true := by
            simp only [truthy, decide_eq_true_eq]
            omega
          simp only [Option.map_some, Option.filter_some, hne, if_true]
          rfl

theorem after_str (token : Str) (rest : Streamed) : rest.after (.str token) =
    { rest with yielded := ([token].filter (· ≠ [])).map .str ++ rest.yielded } := by
  by_cases h : token = []
  · simp [Streamed.after, truthy, h]
  · simp [Streamed.after, truthy, h]

/-- What the loop makes of lines that carry a reply. -/
theorem streamLines_of_transcript
    (h : Transcript py promptEvalCount evalCount broken tokens done raised lines) :
    streamLines py broken lines =
      ⟨(tokens.filter (· ≠ [])).map .str,
        if done then some (promptEvalCount.getD 0, evalCount.getD 0) else none, raised⟩ := by
  induction h with
  | blank hblank h ih => rw [streamLines, if_pos hblank, ih]
  | @token tokens done raised line rest frame token hline hload htoken h ih =>
      rw [streamLines, if_neg hline, hload]
      simp only [htoken.error, htoken.done, htoken.content, Bool.false_eq_true, if_false]
      rw [ih, after_str, ← List.map_append, ← List.filter_append, List.singleton_append]
  | done hline hload hdone =>
      rw [streamLines, if_neg hline, hload]
      simp only [hdone.error, hdone.done, count_of_counts hdone.promptEvalCount,
        count_of_counts hdone.evalCount, Bool.false_eq_true, if_false, if_true]
      rfl
  | error hline hload herror =>
      rw [streamLines, if_neg hline, hload]
      simp only [herror, if_true]
      rfl
  | closed => rfl

/-! ## Refinement -/

/-- The handle after a stream. -/
def afterStream (h : Handle) (o : Streamed) : Handle :=
  match o.usage with
  | some x => { h with usage := some (x.1.toNat, x.2.toNat) }
  | none => h

/-- **The stream refines the reply.**  Whatever lines carry a reply, with white space between
them, with any other fields, and with anything after the last, the stream yields the deltas of
the reply, raises what it raises, and leaves its counts with the handle. -/
theorem generateStream_refines (py : Python) (h : Handle) (hb : h.backend = .ollama) (r : Reply)
    (response : Response) (hstatus : response.status < 400)
    (ht : Transcript py r.promptEvalCount r.evalCount response.broken r.tokens r.done r.raised
      response.lines) :
    (generateStream py (.ok response)).yielded = (deltas r).map .str ∧
      (generateStream py (.ok response)).raised = r.raised ∧
      afterStream h (generateStream py (.ok response)) = streamedHandle h r := by
  have hlines := streamLines_of_transcript ht
  rw [generateStream]
  simp only [if_neg (Nat.not_le_of_lt hstatus), hlines]
  refine ⟨rfl, trivial, ?_⟩
  cases hdone : r.done with
  | false => simp [afterStream, streamedHandle, hb, hdone]
  | true => simp [afterStream, streamedHandle, hb, hdone]

/-! ## A stream that is cut -/

/-- A response that is cut anywhere yields a beginning of what it would have yielded, and has no
other counts. -/
theorem streamLines_take (py : Python) (broken broken' : Option HttpError) (lines : List Str)
    (k : Nat) :
    (streamLines py broken' (lines.take k)).yielded <+: (streamLines py broken lines).yielded ∧
      ((streamLines py broken' (lines.take k)).usage = none ∨
        streamLines py broken' (lines.take k) = streamLines py broken lines) := by
  induction lines generalizing k with
  | nil =>
      rw [List.take_nil]
      exact ⟨List.nil_prefix, .inl rfl⟩
  | cons line rest ih =>
      cases k with
      | zero => exact ⟨List.nil_prefix, .inl rfl⟩
      | succ k =>
          obtain ⟨hpre, husage⟩ := ih k
          rw [List.take_succ_cons, streamLines, streamLines]
          split
          · exact ⟨hpre, husage⟩
          split
          · next frame hload =>
              split
              · exact ⟨List.prefix_rfl, .inl rfl⟩
              split
              · exact ⟨List.prefix_rfl, .inr rfl⟩
              split
              · next token htoken =>
                  simp only [Streamed.after]
                  split
                  · refine ⟨List.cons_prefix_cons.mpr ⟨rfl, hpre⟩, ?_⟩
                    rcases husage with hnone | heq
                    · exact .inl hnone
                    · exact .inr (by rw [heq])
                  · exact ⟨hpre, husage⟩
              · exact ⟨List.prefix_rfl, .inl rfl⟩
          · exact ⟨List.prefix_rfl, .inl rfl⟩

/-! ## A host -/

/-- The object that carries a token. -/
def tokenFrame (token : Str) : Fields :=
  [(str "message", .obj [(str "role", .str (str "assistant")), (str "content", .str token)]),
    (str "done", .bool false)]

/-- The object that ends a stream. -/
def doneFrame (promptEvalCount evalCount : Nat) : Fields :=
  [(str "done", .bool true), (str "prompt_eval_count", .int promptEvalCount),
    (str "eval_count", .int evalCount)]

theorem reload_tokenFrame (token : Str) :
    reload py.canon false (.obj (tokenFrame token)) = .obj (tokenFrame token) := by
  apply reload_eq_self
  have hin : ([str "role", str "content"] : List Str).Nodup := by decide
  have hout : ([str "message", str "done"] : List Str).Nodup := by decide
  exact ⟨hout, ⟨hin, trivial, trivial, trivial⟩, trivial, trivial⟩

theorem reload_doneFrame (p n : Nat) :
    reload py.canon false (.obj (doneFrame p n)) = .obj (doneFrame p n) := by
  apply reload_eq_self
  have hkeys : ([str "done", str "prompt_eval_count", str "eval_count"] : List Str).Nodup := by
    decide
  exact ⟨hkeys, trivial, trivial, trivial, trivial⟩

theorem isToken_tokenFrame (token : Str) : IsToken (tokenFrame token) token where
  error := by
    have herror : getField (tokenFrame token) (str "error") = none := rfl
    rw [flag, herror]
    rfl
  done := rfl
  content := rfl

theorem isDone_doneFrame (p n : Nat) : IsDone (doneFrame p n) (some p) (some n) where
  error := rfl
  done := rfl
  promptEvalCount := rfl
  evalCount := rfl

/-- The lines of a host that sends each token on a line, and then the counts. -/
def hostLines (tokens : List Str) (p n : Nat) : List Str :=
  tokens.map (fun t ↦ dumps false (.obj (tokenFrame t))) ++ [dumps false (.obj (doneFrame p n))]

/-- Such a host carries every reply that it ends. -/
theorem transcript_hostLines (py : Python) (broken : Option HttpError) (tokens : List Str)
    (p n : Nat) :
    Transcript py (some p) (some n) broken tokens true none (hostLines tokens p n) := by
  have hne : ∀ l : Fields, strip (dumps false (.obj l)) ≠ [] := by
    intro l
    obtain ⟨body, hbody⟩ := dumps_obj false l
    rw [strip_dumps_obj, hbody]
    exact List.cons_ne_nil _ _
  induction tokens with
  | nil =>
      refine .done (hne _) ?_ (isDone_doneFrame p n)
      rw [loads_dumps, reload_doneFrame]
  | cons token tokens ih =>
      refine .token (hne _) ?_ (isToken_tokenFrame token) ih
      rw [loads_dumps, reload_tokenFrame]

/-- A reply of three tokens, of which one has no text. -/
def helloReply : Reply :=
  { tokens := [str "Hel", [], str "lo"], finishReason := .stop, promptTokens := 4
    promptEvalCount := some 5, evalCount := some 2, done := true, raised := none }

def samplePython : Python := ⟨id, fun _ ↦ none⟩

/-- `generateStream_refines` at a host that sends each token on a line of its own. -/
theorem generateStream_helloReply :
    (generateStream samplePython (.ok ⟨200, hostLines helloReply.tokens 5 2, none⟩)).yielded =
      [.str (str "Hel"), .str (str "lo")] ∧
    (generateStream samplePython (.ok ⟨200, hostLines helloReply.tokens 5 2, none⟩)).raised =
      none ∧
    afterStream ⟨.ollama, none⟩
        (generateStream samplePython (.ok ⟨200, hostLines helloReply.tokens 5 2, none⟩)) =
      ⟨.ollama, some (5, 2)⟩ :=
  generateStream_refines samplePython ⟨.ollama, none⟩ rfl helloReply
    ⟨200, hostLines helloReply.tokens 5 2, none⟩ (by decide)
    (transcript_hostLines samplePython none helloReply.tokens 5 2)

end Adapta.Chat.Ollama
