import Adapta.Chat.Fit
import Adapta.Chat.Vision

/-!
# Citations match the prompt

The chunks that survive retrieval are numbered twice: `build_context_block` prints them in the
system prompt, and `format_citations` lists them in the answer.  Both are given what the fit into
the window has kept, so the `i`-th citation is of the chunk that the prompt shows as `[i]`.

A request with images has no citations at all: nothing is retrieved for it, and a stream of it is
refused.
-/

namespace Adapta.Chat

open Api Lib Rag
open Keys (EndpointId)

variable {E : Env} {V : VisionEnv} {a : ServiceArgs} {p : ProjectId}

/-! ## The context in the system prompt -/

/-- The numbered blocks of the context. -/
def contextBlocks (kept : List RetrievedChunk) : List Str :=
  kept.zipIdx.map fun x ↦ contextEntry (x.2 + 1) x.1

def contextIntro : String :=
  "Use the following context to answer. Cite sources by their [N] number.\n\n"

/-- What the system prompt of a project says of the documents. -/
def contextPart (kept : List RetrievedChunk) : Str :=
  if kept = [] then str noContextLine
  else str contextIntro ++ join (str "\n\n---\n\n") (contextBlocks kept)

theorem getElem?_contextBlocks {kept : List RetrievedChunk} {i : Nat} :
    (contextBlocks kept)[i]? = kept[i]?.map (contextEntry (i + 1)) := by
  rw [contextBlocks, List.getElem?_map, List.getElem?_zipIdx, Option.map_map, Nat.zero_add]
  rfl

/-- The part begins with a character that is no white space. -/
theorem exists_contextPart_eq_cons (kept : List RetrievedChunk) :
    ∃ c t, isSpace c = false ∧ contextPart kept = c :: t := by
  rw [contextPart]
  split
  · exact ⟨_, _, by decide, rfl⟩
  · exact ⟨_, _, by decide, rfl⟩

theorem abstentionLine_eq : ∃ t, str abstentionLine = t ++ [.char '.'] :=
  ⟨(str abstentionLine).dropLast, by decide +kernel⟩

/-- The system prompt of a project has the context in a place of its own, whatever it is. -/
theorem buildSystem_eq (base client : Option Str) :
    ∃ before after, ∀ kept, buildSystem base true kept true client =
      some (before ++ contextPart kept ++ after) := by
  obtain ⟨u, hu⟩ := abstentionLine_eq
  refine ⟨((base.filter (· ≠ [])).toList.flatMap (· ++ str "\n\n")).dropWhile isSpace,
    str "\n\n" ++ u ++ .char '.' ::
      ((client.filter (· ≠ [])).toList.flatMap (str "\n\n" ++ ·)).rdropWhile isSpace, ?_⟩
  intro kept
  have hparts : buildSystem base true kept true client = nonempty? (strip (join (str "\n\n")
      ((base.filter (· ≠ [])).toList ++
        contextPart kept :: str abstentionLine :: (client.filter (· ≠ [])).toList))) := by
    by_cases hkept : kept = []
    · simp [buildSystem, contextPart, hkept]
    · simp [buildSystem, contextPart, hkept, buildContextBlock, contextBlocks, contextIntro]
  obtain ⟨c, t, hc, hpart⟩ := exists_contextPart_eq_cons kept
  have hjoin : join (str "\n\n") ((base.filter (· ≠ [])).toList ++
        contextPart kept :: str abstentionLine :: (client.filter (· ≠ [])).toList) =
      (base.filter (· ≠ [])).toList.flatMap (· ++ str "\n\n") ++ c :: ((t ++ str "\n\n" ++ u) ++
        .char '.' :: (client.filter (· ≠ [])).toList.flatMap (str "\n\n" ++ ·)) := by
    rw [join_append_cons, List.flatMap_cons, hu, hpart]
    simp
  rw [hparts, hjoin, strip_around hc (by decide), nonempty?, if_neg (by simp), hpart]
  simp

/-! ## The citations -/

/-- The system prompt of a project that is built from these chunks. -/
def promptWith (a : ServiceArgs) (kept : List RetrievedChunk) : Option Str :=
  buildSystem (a.systemPrompt.map str) true kept true (splitClientSystem a.messages).2

/-- The system prompt is built from these chunks, and the citations are of the chunks that it
shows, by their numbers. -/
structure Numbered (a : ServiceArgs) (system : Option Str) (kept : List RetrievedChunk)
    (citations : List Citation) : Prop where
  built : system = promptWith a kept
  printed : ∃ s, system = some s ∧ contextPart kept <:+: s
  length : citations.length = (contextBlocks kept).length
  named : ∀ i x, citations[i]? = some x → ∃ c, kept[i]? = some c ∧
    (contextBlocks kept)[i]? = some (contextEntry (i + 1) c) ∧
    x.index = i + 1 ∧ x.source = c.source ∧ x.text = c.text ∧ x.fileId = c.fileId ∧
    x.page = c.page

/-- The chunks that the request retrieves, on its queries. -/
def Retrieves (E : Env) (a : ServiceArgs) (p : ProjectId) (found : List RetrievedChunk) : Prop :=
  ∃ q t topK,
    (retrievalQueries E a.modelName a.adapterPath (splitClientSystem a.messages).1
      a.condense).outcome = (.ok q, t) ∧
    resolveRagTopK E a.projectId a.topKRag = .ok topK ∧
    E.retrieve p q.query topK a.ragFilters = .ok found

/-- The citations of an answer, for the requests that were handed to the backend: of the chunks
in the last prompt, or none if nothing survived or the answer abstains. -/
def Cited (E : Env) (a : ServiceArgs) (p : ProjectId) (sent : List InferenceRequest) (answer : Str)
    (citations : Option (List Citation)) : Prop :=
  ∃ found kept cs, Retrieves E a p found ∧
    kept <+: applyMinScore found E.settings.ragMinScore ∧ citations = some cs ∧
    (kept = [] → cs = []) ∧ (isAbstention E.lower answer = true → cs = []) ∧
    (isAbstention E.lower answer = false →
      ∃ req, sent.getLast? = some req ∧ Numbered a req.systemPrompt kept cs)

theorem numbered_formatCitations {system : Option Str} {kept : List RetrievedChunk}
    (h : system = promptWith a kept) : Numbered a system kept (formatCitations kept) where
  built := h
  printed := by
    obtain ⟨before, after, hshape⟩ :=
      buildSystem_eq (a.systemPrompt.map str) (splitClientSystem a.messages).2
    exact ⟨_, h.trans (hshape kept), before, after, rfl⟩
  length := by simp [formatCitations, contextBlocks]
  named i x hx := by
    rw [formatCitations, List.getElem?_map, List.getElem?_zipIdx, Option.map_map] at hx
    obtain ⟨c, hc, rfl⟩ := Option.map_eq_some_iff.mp hx
    refine ⟨c, hc, ?_, ?_, rfl, rfl, rfl, rfl⟩
    · rw [getElem?_contextBlocks, hc]
      rfl
    · exact congrArg (· + 1) (Nat.zero_add i)

/-- The canonical abstention is one, whatever lower case is. -/
theorem isAbstention_abstentionAnswer (lower : Str → Str) :
    isAbstention lower (str abstentionAnswer) = true := by
  have hstrip : strip (str abstentionAnswer) = str abstentionAnswer := by decide
  rw [isAbstention, hstrip, List.isPrefixOf_iff_prefix]
  exact List.rdropWhile_prefix _ _

/-- What a request of a project gets to: nothing survives, or a prompt that shows a prefix of
what survives. -/
theorem fitted_cited {v : Fitted} {sent : List InferenceRequest}
    (hp : a.projectId.filter (· ≠ "") = some p) (hf : (fitted E a).outcome = (.ok v, sent)) :
    ∃ found, Retrieves E a p found ∧
      ∀ q h system kept maxTokens, v = .ready q h system kept maxTokens →
        kept <+: applyMinScore found E.settings.ragMinScore ∧ system = promptWith a kept := by
  obtain ⟨⟨q, chunks⟩, t, hg, hrest⟩ := Serve.run_bind_ok hf
  rw [hp] at hg
  obtain ⟨q', t₁, hqueries, hg⟩ := Serve.run_bind_ok hg
  obtain ⟨topK, t₂, htopK, hg⟩ := Serve.run_bind_ok hg
  obtain ⟨chunks', t₃, hchunks, hg⟩ := Serve.run_bind_ok hg
  cases hg
  obtain ⟨found, hfound, rfl⟩ := map_eq_ok.mp (Serve.run_lift_ok hchunks)
  refine ⟨found, ⟨q, _, topK, hqueries, Serve.run_lift_ok htopK, hfound⟩, ?_⟩
  rintro q' h system kept maxTokens rfl
  simp only at hrest
  split at hrest
  · cases hrest
  · obtain ⟨h', t₄, -, hrest⟩ := Serve.run_bind_ok hrest
    obtain ⟨⟨system', kept', maxTokens'⟩, t₅, hfit, hrest⟩ := Serve.run_bind_ok hrest
    cases hrest
    obtain ⟨hsystem, hfront⟩ := Fitting.fit_ok (f := ⟨_, _, _, _, _⟩) (Serve.run_lift_ok hfit)
    have hid : a.projectId = some p := (Option.filter_eq_some_iff.mp hp).1
    refine ⟨hfront, ?_⟩
    rw [hsystem]
    show buildSystem _ (a.projectId.filter (· ≠ "")).isSome kept' a.projectId.isSome _ = _
    rw [hp, hid]
    rfl

/-! ## The two services -/

/-- An answer to a prompt, with the citations that both services give it. -/
theorem cited_of_ready {q : Queries} {h : Handle} {system : Option Str}
    {kept : List RetrievedChunk} {maxTokens : Int} {sent : List InferenceRequest}
    (hp : a.projectId.filter (· ≠ "") = some p)
    (hf : (fitted E a).outcome = (.ok (.ready q h system kept maxTokens), sent)) (topP : Rat)
    (stream : Bool) (answer : Str) :
    Cited E a p (sent ++ [answerRequest E a system maxTokens topP stream]) answer
      (citationsOf E a kept answer) := by
  obtain ⟨found, hfound, hready⟩ := fitted_cited hp hf
  obtain ⟨hfront, hbuilt⟩ := hready q h system kept maxTokens rfl
  refine ⟨found, kept, if isAbstention E.lower answer then [] else
    formatCitations kept, hfound, hfront, ?_, ?_, ?_, ?_⟩
  · rw [citationsOf, hp]
    rfl
  · rintro rfl
    exact ite_self []
  · intro habstains
    rw [if_pos habstains]
  · intro hanswers
    rw [if_neg (by simp [hanswers])]
    exact ⟨_, List.getLast?_concat, numbered_formatCitations hbuilt⟩

/-- The canned answer cites nothing. -/
theorem cited_of_abstains {q : Queries} {sent : List InferenceRequest}
    (hp : a.projectId.filter (· ≠ "") = some p)
    (hf : (fitted E a).outcome = (.ok (.abstains q), sent)) :
    Cited E a p sent (str abstentionAnswer) (some []) := by
  obtain ⟨found, hfound, -⟩ := fitted_cited hp hf
  refine ⟨found, [], [], hfound, List.nil_prefix, rfl, fun _ ↦ rfl, fun _ ↦ rfl, ?_⟩
  intro hanswers
  rw [isAbstention_abstentionAnswer] at hanswers
  cases hanswers

def Frame.content? : Frame → Option Str
  | .delta content => some content
  | .finish .. | .done => none

/-- The text of the answer in the frames of a stream. -/
def streamText (g : Frames) : Str :=
  ((g.events.filterMap Emit.yield?).filterMap Frame.content?).flatten

/-- The frames of a stream that ends. -/
theorem frames_ended (l : List Str) (r : FinishReason) (pt ct : Nat)
    (citations : Option (List Citation)) (e : Option EndpointId) (pt' ct' : Nat) :
    ((l.map fun t ↦ Emit.yield (Frame.delta t)) ++
        [Emit.yield (Frame.finish r pt ct citations), Emit.yield Frame.done] ++
          meter e pt' ct').filterMap Emit.yield? =
      l.map Frame.delta ++ [.finish r pt ct citations, .done] := by
  have hmeter : (meter e pt' ct').filterMap Emit.yield? = ([] : List Frame) := by
    rw [meter]
    cases e.filter (· ≠ "") <;> rfl
  have htokens : (l.map fun t ↦ (Emit.yield (Frame.delta t) : Emit Frame Metered)).filterMap
      Emit.yield? = l.map Frame.delta := by
    rw [List.filterMap_map, ← List.filterMap_eq_map]
    rfl
  rw [List.filterMap_append, List.filterMap_append, hmeter, htokens, List.append_nil]
  rfl

theorem contents_deltas (l : List Str) : (l.map Frame.delta).filterMap Frame.content? = l := by
  rw [List.filterMap_map]
  exact List.filterMap_some

/-- A stream that ends has one last frame, and the text of its tokens. -/
theorem cited_of_ended {l : List Str} {r r' : FinishReason} {pt ct pt' ct' n n' : Nat}
    {citations citations' : Option (List Citation)} {e : Option EndpointId} {g : Frames}
    {sent : List InferenceRequest} (hcited : Cited E a p sent l.flatten citations)
    (hg : g.events = (l.map fun t ↦ Emit.yield (Frame.delta t)) ++
      [.yield (.finish r pt ct citations), .yield .done] ++ meter e n n')
    (hend : .yield (.finish r' pt' ct' citations') ∈ g.events) :
    Cited E a p sent (streamText g) citations' := by
  have hframes : g.events.filterMap Emit.yield? =
      l.map Frame.delta ++ [.finish r pt ct citations, .done] := by
    rw [hg]
    exact frames_ended l r pt ct citations e n n'
  have htext : streamText g = l.flatten := by
    rw [streamText, hframes, List.filterMap_append, contents_deltas]
    exact congrArg List.flatten (List.append_nil l)
  have hmem : Frame.finish r' pt' ct' citations' ∈ g.events.filterMap Emit.yield? :=
    List.mem_filterMap.mpr ⟨_, hend, rfl⟩
  have heq : citations' = citations := by
    rw [hframes] at hmem
    simp at hmem
    exact hmem.2.2.2
  rw [htext, heq]
  exact hcited

/-- What `chat` returns is cited. -/
theorem chat_cited {vision : ServiceArgs → Rat → Int → Rat → Serve Completion} {topP : Option Rat}
    {c : Completion} {sent : List InferenceRequest} (himg : hasImageParts a.messages = false)
    (hp : a.projectId.filter (· ≠ "") = some p)
    (h : (chat E vision a topP).outcome = (.ok c, sent)) :
    Cited E a p sent c.content c.citations := by
  rw [outcome_of_fitted (chat_eq himg topP)] at h
  rcases hf : (fitted E a).outcome with ⟨_ | v, sent₀⟩
  · rw [hf] at h
    cases h
  · rw [hf] at h
    cases v with
    | abstains q =>
        cases h
        exact cited_of_abstains hp hf
    | ready q handle system kept maxTokens =>
        simp only [completed, Serve.run_hand_bind] at h
        split at h
        · cases h
        · cases h
          exact cited_of_ready hp hf _ _ _

/-- What `chat_stream` says in its last frame is cited. -/
theorem chatStream_cited {e : Option EndpointId} {g : Frames} {sent : List InferenceRequest}
    {r : FinishReason} {pt ct : Nat} {citations : Option (List Citation)}
    (himg : hasImageParts a.messages = false) (hp : a.projectId.filter (· ≠ "") = some p)
    (h : (chatStream E a e).outcome = (.ok g, sent))
    (hend : .yield (.finish r pt ct citations) ∈ g.events) :
    Cited E a p sent (streamText g) citations := by
  rw [outcome_of_fitted (chatStream_eq himg e)] at h
  rcases hf : (fitted E a).outcome with ⟨_ | v, sent₀⟩
  · rw [hf] at h
    cases h
  · rw [hf] at h
    cases v with
    | abstains q =>
        cases h
        refine cited_of_ended (l := [str abstentionAnswer]) ?_ rfl hend
        exact cited_of_abstains hp hf
    | ready q handle system kept maxTokens =>
        simp only [streamed, Serve.run_hand_bind] at h
        split at h
        · cases h
          -- a stream that raises has no last frame
          obtain ⟨_, _, hdelta⟩ := List.mem_map.mp hend
          cases hdelta
        · cases h
          exact cited_of_ended (cited_of_ready hp hf _ _ _) rfl hend

/-- For every request of a project without images, the citations of the answer are those of the
chunks in the prompt, streamed or not; a request with images is answered without citations and
not streamed. -/
theorem citations_match (E : Env) (V : VisionEnv) (a : ServiceArgs) (p : ProjectId)
    (topP : Option Rat) (e : Option EndpointId) (hp : a.projectId = some p) (hne : p ≠ "") :
    (hasImageParts a.messages = false →
      (∀ c sent, (chat E (withImages E V) a topP).outcome = (.ok c, sent) →
        Cited E a p sent c.content c.citations) ∧
      ∀ g sent, (chatStream E a e).outcome = (.ok g, sent) → ∀ r pt ct citations,
        .yield (.finish r pt ct citations) ∈ g.events → Cited E a p sent (streamText g) citations) ∧
    (hasImageParts a.messages = true →
      (∀ c sent, (chat E (withImages E V) a topP).outcome = (.ok c, sent) →
        c.citations = none ∧ sent = []) ∧
      ∃ message, (chatStream E a e).outcome = (.error (.invalidRequest message), [])) := by
  have hproject : a.projectId.filter (· ≠ "") = some p := by simp [hp, hne]
  constructor
  · intro himg
    constructor
    · intro c sent h
      exact chat_cited himg hproject h
    · intro g sent h r pt ct citations hend
      exact chatStream_cited himg hproject h hend
  · intro himg
    constructor
    · intro c sent h
      simp only [chat, himg, if_true] at h
      exact withImages_ok h
    · rw [chatStream, himg]
      exact ⟨_, rfl⟩

/-! ## Two requests -/

/-- A question to the project of the desk. -/
def citedArgs (content : Content) : ServiceArgs :=
  ⟨"qwen2.5-3b-instruct", [⟨.user, content⟩], none, none, some "Be brief.", some "3f2a-9c", none,
    none, true, none, none⟩

/-- A question with an image. -/
def pictureArgs : ServiceArgs :=
  citedArgs (.parts [.text (str "What is this?"),
    .imageUrl (str "data:image/png;base64," ++ onePixelBase64)])

/-- The text request has one chunk in its prompt, and cites it. -/
theorem citations_match_desk : ∃ c sent,
    (chat deskEnv (withImages deskEnv eyes) (citedArgs (.text (str "When do you open?")))
      none).outcome = (.ok c, sent) ∧
    Cited deskEnv (citedArgs (.text (str "When do you open?"))) "3f2a-9c" sent c.content
      c.citations := by
  obtain ⟨htext, -⟩ := citations_match deskEnv eyes (citedArgs (.text (str "When do you open?")))
    "3f2a-9c" none none rfl (by decide)
  have hrun : (chat deskEnv (withImages deskEnv eyes) (citedArgs (.text (str "When do you open?")))
      none).outcome.1.toOption.map Completion.content = some (str "Hello") := by decide +kernel
  rcases hout : (chat deskEnv (withImages deskEnv eyes)
    (citedArgs (.text (str "When do you open?"))) none).outcome with ⟨_ | c, sent⟩
  · rw [hout] at hrun
    cases hrun
  · exact ⟨c, sent, rfl, (htext rfl).1 c sent hout⟩

/-- The request with an image is answered without citations. -/
theorem picture_not_cited : ∃ c,
    (chat deskEnv (withImages deskEnv eyes) pictureArgs none).outcome = (.ok c, []) ∧
    isAbstention deskEnv.lower c.content = false ∧ c.citations = none ∧
    ¬Cited deskEnv pictureArgs "3f2a-9c" [] c.content c.citations := by
  have hrun : (chat deskEnv (withImages deskEnv eyes) pictureArgs none).outcome =
      (.ok ⟨str "A dot.", .stop, 18, 3, none⟩, []) := by
    rfl
  refine ⟨_, hrun, by decide, rfl, ?_⟩
  rintro ⟨found, kept, cs, -, -, hnone, -⟩
  cases hnone

end Adapta.Chat
