/-
Comproject.Db.ReplyKernelTheorems — which replies a caller of the wrapper
cannot tell apart.

A caller sees `Reply` values only. Two trees of hiredis become one
`Reply` exactly when they agree in type at every node, in the integers,
and in the payloads UP TO their first zero byte (`reply_eq_iff`). There
is one more confusion at the root. A null pointer, which is how hiredis
says that the connection failed, becomes the same value as an error reply
of the server that is empty or starts with a zero byte.
-/
import Comproject.Db.ReplyTheorems

namespace Comproject.Db

mutual

/-- The same type at every node, and the same value in the field the type
uses, payloads being read as C strings. -/
def RedisReply.SameUpToZero : RedisReply → RedisReply → Prop
  | .node type integer len str _ element, .node type' integer' len' str' _ element' =>
      type = type'
      ∧ (isStringType type →
          CString.upToZero (payload len str) = CString.upToZero (payload len' str'))
      ∧ (type = redisReplyInteger → integer = integer')
      ∧ (type = redisReplyArray → RedisReply.AllSameUpToZero element element')
  | .null, .null => True
  | _, _ => False

def RedisReply.AllSameUpToZero : List RedisReply → List RedisReply → Prop
  | [], [] => True
  | r :: rs, r' :: rs' => r.SameUpToZero r' ∧ RedisReply.AllSameUpToZero rs rs'
  | _, _ => False

end

/-- An error reply without a text. -/
def emptyError : RedisReply := .node redisReplyError 0 0 (some [0]) 0 []

/-- What the caller takes a reply for: nothing at all looks like an empty
error. -/
def RedisReply.seen : RedisReply → RedisReply
  | .null => emptyError
  | r => r

/-! ## One node -/

/-- The copy of a well-formed node, field by field. -/
theorem ofRedisReply_fields {type : Int32} {integer : Int64} {len : Nat}
    {str : Option (List UInt8)} {elements : Nat} {element : List RedisReply}
    (h : (RedisReply.node type integer len str elements element).WellFormed) :
    ∃ es, Reply.ofRedisReply (.node type integer len str elements element)
        = some ⟨type, if type = redisReplyInteger then integer else 0,
            if isStringType type then CString.upToZero (payload len str) else [], es⟩
      ∧ (type ≠ redisReplyArray → es = [])
      ∧ (type = redisReplyArray → RedisReply.AllWellFormed element
          ∧ Reply.pushElements element.length element = some es) := by
  rw [RedisReply.WellFormed] at h
  rcases h with ⟨ht, hstr⟩ | rfl | ⟨rfl, rfl, hall⟩ | rfl
  · have hint : type ≠ redisReplyInteger := fun he => not_isStringType_integer (he ▸ ht)
    have harr : type ≠ redisReplyArray := fun he => not_isStringType_array (he ▸ ht)
    refine ⟨[], ?_, fun _ => rfl, fun he => absurd he harr⟩
    rw [ofRedisReply_string integer elements element ht hstr, if_neg hint, if_pos ht]
  · refine ⟨[], ?_, fun _ => rfl, fun he => absurd he (by decide)⟩
    rw [ofRedisReply_integer, if_pos rfl, if_neg not_isStringType_integer]
  · obtain ⟨es, hes, -, -⟩ := pushElements_wellFormed element hall
    refine ⟨es, ?_, fun he => absurd rfl he, fun _ => ⟨hall, hes⟩⟩
    rw [ofRedisReply_array, hes, if_neg (by decide), if_neg not_isStringType_array]
    rfl
  · refine ⟨[], ?_, fun _ => rfl, fun he => absurd he (by decide)⟩
    rw [ofRedisReply_nil, if_neg (by decide), if_neg not_isStringType_nil]

/-! ## The whole tree -/

mutual

/-- Equal copies, node by node. -/
theorem copy_eq_iff : ∀ r r' : RedisReply, r.WellFormed → r'.WellFormed →
    (Reply.ofRedisReply r = Reply.ofRedisReply r' ↔ r.SameUpToZero r')
  | .null, _, h, _ => by simp [RedisReply.WellFormed] at h
  | .node _ _ _ _ _ _, .null, _, h => by simp [RedisReply.WellFormed] at h
  | .node type integer len str elements element,
    .node type' integer' len' str' elements' element', h, h' => by
      obtain ⟨es, hcopy, hnot, harr⟩ := ofRedisReply_fields h
      obtain ⟨es', hcopy', hnot', harr'⟩ := ofRedisReply_fields h'
      rw [hcopy, hcopy', RedisReply.SameUpToZero, Option.some.injEq, Reply.mk.injEq]
      refine and_congr_right ?_
      rintro rfl
      -- the elements count for arrays only
      have helems : es = es' ↔
          (type = redisReplyArray → RedisReply.AllSameUpToZero element element') := by
        by_cases ht : type = redisReplyArray
        · obtain ⟨hall, hes⟩ := harr ht
          obtain ⟨hall', hes'⟩ := harr' ht
          have hiff := copies_eq_iff element element' hall hall'
          rw [hes, hes', Option.some.injEq] at hiff
          rw [hiff]
          exact ⟨fun hsame _ => hsame, fun hsame => hsame ht⟩
        · rw [hnot ht, hnot' ht]
          exact ⟨fun _ he => absurd he ht, fun _ => rfl⟩
      rw [helems]
      by_cases hstr : isStringType type
      · have hint : ¬ type = redisReplyInteger := fun he => not_isStringType_integer (he ▸ hstr)
        simp [hstr, hint]
      · by_cases hint : type = redisReplyInteger
        · simp [hint, not_isStringType_integer]
        · simp [hstr, hint]

theorem copies_eq_iff : ∀ rs rs' : List RedisReply, RedisReply.AllWellFormed rs →
    RedisReply.AllWellFormed rs' →
    (Reply.pushElements rs.length rs = Reply.pushElements rs'.length rs'
      ↔ RedisReply.AllSameUpToZero rs rs')
  | [], [], _, _ => by simp [RedisReply.AllSameUpToZero]
  | [], r' :: rs', _, h' => by
      obtain ⟨es', hes', hlen', -⟩ := pushElements_wellFormed (r' :: rs') h'
      rw [hes']
      cases es' with
      | nil => cases hlen'
      | cons e es => simp [Reply.pushElements, RedisReply.AllSameUpToZero]
  | r :: rs, [], h, _ => by
      obtain ⟨es, hes, hlen, -⟩ := pushElements_wellFormed (r :: rs) h
      rw [hes]
      cases es with
      | nil => cases hlen
      | cons e es => simp [Reply.pushElements, RedisReply.AllSameUpToZero]
  | r :: rs, r' :: rs', h, h' => by
      rw [RedisReply.AllWellFormed] at h h'
      have hhead := copy_eq_iff r r' h.1 h'.1
      have htail := copies_eq_iff rs rs' h.2 h'.2
      obtain ⟨e, he, -⟩ := ofRedisReply_wellFormed r h.1
      obtain ⟨e', he', -⟩ := ofRedisReply_wellFormed r' h'.1
      obtain ⟨es, hes, -, -⟩ := pushElements_wellFormed rs h.2
      obtain ⟨es', hes', -, -⟩ := pushElements_wellFormed rs' h'.2
      rw [he, he', Option.some.injEq] at hhead
      rw [hes, hes', Option.some.injEq] at htail
      rw [RedisReply.AllSameUpToZero, ← hhead, ← htail]
      simp [Reply.pushElements, he, he', hes, hes']

end

/-! ## What the caller can tell -/

theorem emptyError_wellFormed : emptyError.WellFormed := by
  simp [emptyError, RedisReply.WellFormed, isStringType, terminatedAt]

/-- A null pointer is copied as an empty error. -/
theorem ofRedisReply_seen (r : RedisReply) : Reply.ofRedisReply r.seen = Reply.ofRedisReply r := by
  cases r with
  | null => rfl
  | node type integer len str elements element => rfl

theorem seen_wellFormed {r : RedisReply} (h : r = .null ∨ r.WellFormed) : r.seen.WellFormed := by
  cases r with
  | null => exact emptyError_wellFormed
  | node type integer len str elements element =>
    rcases h with he | h
    · cases he
    · exact h

/-- **What is lost of a reply.** Two replies, each null or a well-formed
tree, give their caller one and the same `Reply` if and only if they
agree at every node up to the first zero byte of each payload, a null
reply counting as an empty error. -/
theorem reply_eq_iff (r r' : RedisReply) (h : r = .null ∨ r.WellFormed)
    (h' : r' = .null ∨ r'.WellFormed) :
    Reply.ofRedisReply r = Reply.ofRedisReply r' ↔ r.seen.SameUpToZero r'.seen := by
  rw [← ofRedisReply_seen r, ← ofRedisReply_seen r']
  exact copy_eq_iff r.seen r'.seen (seen_wellFormed h) (seen_wellFormed h')

/-- An array in an array, whose only payload has the byte `b` behind a zero
byte. -/
def cutArray (b : UInt8) : RedisReply :=
  .node redisReplyArray 0 0 none 1
    [.node redisReplyArray 0 0 none 1 [.node redisReplyString 0 3 (some [97, 0, b, 0]) 0 []]]

/-- The byte is lost, two levels down. -/
theorem reply_eq_iff_cutArray :
    Reply.ofRedisReply (cutArray 98) = Reply.ofRedisReply (cutArray 99) := by
  have hwf : ∀ b, (cutArray b).WellFormed := by
    intro b
    simp [cutArray, RedisReply.WellFormed, RedisReply.AllWellFormed, isStringType, terminatedAt]
  refine (reply_eq_iff (cutArray 98) (cutArray 99) (.inr (hwf 98)) (.inr (hwf 99))).mpr ?_
  simp [cutArray, RedisReply.seen, RedisReply.SameUpToZero, RedisReply.AllSameUpToZero, payload,
    CString.upToZero]

end Comproject.Db
