import WireRpc.SqlSessions
import WireRpc.RedisSessions

/-!
# Session backends are interchangeable

SQLite, PostgreSQL and Redis answer every call as the reference does, so they answer alike.
-/
namespace WireRpc.SessionBackends
open Library Sessions MemorySessions Answering SqlSessions

section
variable {T κ ν : Type} [LinearOrder T] [Add T] [DecidableEq κ] [DecidableEq ν]

/-- The calls of a history are answered alike by a SQLite file, by a PostgreSQL database that
serves any other stores in between, and by Redis, where the hash and the sorted set have the
same keys after every call. -/
theorem backends_agree (c : Config T) (calls : List (Call T κ)) (h : History calls) :
    answers (transaction (sqlite κ) c) some ∅ calls = answers (reference c) some ∅ calls ∧
      (∀ (configs : ν → Config T) (ns : ν) (es : List (ν × Call T κ)), configs ns = c →
        es.filterMap (ofStore ns) = calls →
          answers (database configs) (ofStore ns) ∅ es = answers (reference c) some ∅ calls) ∧
      answers (RedisSessions.execute c) some RedisSessions.empty calls =
        answers (reference c) some ∅ calls ∧
      ∀ past, past <+: calls → ∀ key,
        key ∈ (finish (RedisSessions.execute c) RedisSessions.empty past).sessions ↔
          key ∈ (finish (RedisSessions.execute c) RedisSessions.empty past).expiry := by
  refine ⟨sqlite_answers c h, fun configs ns es hc hes => ?_, (RedisSessions.redis_run c h).1,
    fun past hpast key => ?_⟩
  · subst hc hes
    exact postgres_answers configs ns h
  · obtain ⟨rest, rfl⟩ := hpast
    have hpast : History past := h.of_append
    obtain ⟨-, hholds, -⟩ := RedisSessions.redis_run c hpast
    rw [hholds.mem_sessions, hholds.mem_expiry]

end

def record : SessionRecord := ⟨"ann", []⟩

def config : Config ℕ := ⟨10, 1, Nat.one_pos⟩

/-- The second session is one too many. -/
def fullCalls : List (Call ℕ ℕ) :=
  [⟨.create 0 record.dumps, 0⟩, ⟨.create 1 record.dumps, 1⟩, ⟨.rotate 0 2, 2⟩, ⟨.get 2, 3⟩]

/-- A store of another namespace is full as well. -/
def sharedCalls : List (ℕ × Call ℕ ℕ) :=
  (1, ⟨.create 0 record.dumps, 7⟩) :: fullCalls.map fun call => (0, call)

def fullAnswers : List (Except SessionError Reply) :=
  [.ok .done, .error .capacity, .ok (.rotated true), .ok (.found (some record.dumps))]

theorem history_fullCalls : History fullCalls := by
  simp only [History, fullCalls, atEach_cons]
  refine ⟨⟨?_, ?_, ?_⟩, ⟨?_, ?_, ?_⟩, ⟨?_, ?_, ?_⟩, ⟨?_, ?_, ?_⟩, atEach_nil _⟩
  all_goals simp [Call.newKey]

theorem backends_agree_full :
    answers (transaction (sqlite ℕ) config) some ∅ fullCalls = fullAnswers ∧
      answers (database fun _ => config) (ofStore 0) ∅ sharedCalls = fullAnswers ∧
      answers (RedisSessions.execute config) some RedisSessions.empty fullCalls = fullAnswers := by
  have hreference : answers (reference config) some ∅ fullCalls = fullAnswers := by
    decide +kernel
  obtain ⟨hsqlite, hpostgres, hredis, -⟩ :=
    @backends_agree ℕ ℕ ℕ _ _ _ _ config fullCalls history_fullCalls
  refine ⟨hsqlite.trans hreference, ?_, hredis.trans hreference⟩
  exact (hpostgres (fun _ => config) 0 sharedCalls rfl rfl).trans hreference

end WireRpc.SessionBackends
