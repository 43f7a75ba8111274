/-
Comproject.Db.ReplyTheorems — when the reply constructor is a lossless
copy.

On a well-formed tree the constructor always returns
(`ofRedisReply_wellFormed`), and every field but `str_` is copied as it
stands. `str_` goes through `std::string(const char *)`, which stops at
the first zero byte, while Redis payloads are binary safe. So the copy is
faithful exactly on the trees whose payloads hold no zero byte
(`reply_faithful_iff_zeroFree`). On those the content of the tree can be
recovered from the copy (`sameContent_of_faithful`), and two different
contents never give one `Reply`.

The inductions run over the tree and, in the array case, over its
element list, as the constructor does.
-/
import Comproject.Db.Reply

namespace Comproject.Db

/-! ## Equations of the constructor, one per branch of the `switch` -/

theorem not_isStringType_integer : ¬ isStringType redisReplyInteger := by decide

theorem not_isStringType_array : ¬ isStringType redisReplyArray := by decide

theorem not_isStringType_nil : ¬ isStringType redisReplyNil := by decide

/-- The string branch reads the terminated buffer up to the first zero
byte of the payload. -/
theorem ofRedisReply_string {type : Int32} (integer : Int64) {len : Nat}
    {str : Option (List UInt8)} (elements : Nat) (element : List RedisReply)
    (ht : isStringType type) (hstr : terminatedAt len str) :
    Reply.ofRedisReply (.node type integer len str elements element)
      = some ⟨type, 0, CString.upToZero (payload len str), []⟩ := by
  obtain ⟨s, rfl, hdrop⟩ := hstr
  have hs : s = s.take len ++ 0 :: [] := by
    rw [← hdrop]
    exact (List.take_append_drop len s).symm
  have hread : CString.read? s = some (CString.upToZero (s.take len)) := by
    conv => lhs; rw [hs]
    exact CString.read?_append_zero (s.take len) []
  simp [Reply.ofRedisReply, ht, hread, payload]

theorem ofRedisReply_integer (integer : Int64) (len : Nat) (str : Option (List UInt8))
    (elements : Nat) (element : List RedisReply) :
    Reply.ofRedisReply (.node redisReplyInteger integer len str elements element)
      = some ⟨redisReplyInteger, integer, [], []⟩ := by
  simp [Reply.ofRedisReply, not_isStringType_integer]

theorem ofRedisReply_array (integer : Int64) (len : Nat) (str : Option (List UInt8))
    (elements : Nat) (element : List RedisReply) :
    Reply.ofRedisReply (.node redisReplyArray integer len str elements element)
      = (Reply.pushElements elements element).map
          (fun es => ⟨redisReplyArray, 0, [], es⟩) := by
  have hne : ¬ redisReplyArray = redisReplyInteger := by decide
  simp [Reply.ofRedisReply, not_isStringType_array, hne]

theorem ofRedisReply_nil (integer : Int64) (len : Nat) (str : Option (List UInt8))
    (elements : Nat) (element : List RedisReply) :
    Reply.ofRedisReply (.node redisReplyNil integer len str elements element)
      = some ⟨redisReplyNil, 0, [], []⟩ := by
  have h1 : ¬ redisReplyNil = redisReplyInteger := by decide
  have h2 : ¬ redisReplyNil = redisReplyArray := by decide
  simp [Reply.ofRedisReply, not_isStringType_nil, h1, h2]

/-! ## The copy, node by node -/

/-- One string node: the copy is faithful when its own payload has no
zero byte. -/
theorem faithful_string_iff {type : Int32} (integer : Int64) (len : Nat)
    (str : Option (List UInt8)) (elements : Nat) (element : List RedisReply)
    (ht : isStringType type) :
    Reply.Faithful (.node type integer len str elements element)
        ⟨type, 0, CString.upToZero (payload len str), []⟩
      ↔ RedisReply.ZeroFree (.node type integer len str elements element) := by
  have hi : ¬ type = redisReplyInteger := fun h => not_isStringType_integer (h ▸ ht)
  have ha : ¬ type = redisReplyArray := fun h => not_isStringType_array (h ▸ ht)
  simp [Reply.Faithful, RedisReply.ZeroFree, ht, hi, ha, CString.upToZero_eq_self_iff]

theorem faithful_integer_iff (integer : Int64) (len : Nat) (str : Option (List UInt8))
    (elements : Nat) (element : List RedisReply) :
    Reply.Faithful (.node redisReplyInteger integer len str elements element)
        ⟨redisReplyInteger, integer, [], []⟩
      ↔ RedisReply.ZeroFree (.node redisReplyInteger integer len str elements element) := by
  have hne : ¬ redisReplyInteger = redisReplyArray := by decide
  simp [Reply.Faithful, RedisReply.ZeroFree, not_isStringType_integer, hne]

theorem faithful_array_iff (integer : Int64) (len : Nat) (str : Option (List UInt8))
    (element : List RedisReply) (es : List Reply) (hlen : es.length = element.length) :
    Reply.Faithful (.node redisReplyArray integer len str element.length element)
        ⟨redisReplyArray, 0, [], es⟩
      ↔ Reply.AllFaithful element es := by
  have hne : ¬ redisReplyArray = redisReplyInteger := by decide
  simp [Reply.Faithful, not_isStringType_array, hne, hlen]

theorem zeroFree_array_iff (integer : Int64) (len : Nat) (str : Option (List UInt8))
    (elements : Nat) (element : List RedisReply) :
    RedisReply.ZeroFree (.node redisReplyArray integer len str elements element)
      ↔ RedisReply.AllZeroFree element := by
  simp [RedisReply.ZeroFree, not_isStringType_array]

theorem faithful_nil_iff (integer : Int64) (len : Nat) (str : Option (List UInt8))
    (elements : Nat) (element : List RedisReply) :
    Reply.Faithful (.node redisReplyNil integer len str elements element)
        ⟨redisReplyNil, 0, [], []⟩
      ↔ RedisReply.ZeroFree (.node redisReplyNil integer len str elements element) := by
  have h1 : ¬ redisReplyNil = redisReplyInteger := by decide
  have h2 : ¬ redisReplyNil = redisReplyArray := by decide
  simp [Reply.Faithful, RedisReply.ZeroFree, not_isStringType_nil, h1, h2]

/-! ## The copy, over the whole tree -/

mutual

/-- On a well-formed tree the constructor returns, and what it returns is
a faithful copy exactly when no payload holds a zero byte. -/
theorem ofRedisReply_wellFormed : ∀ r : RedisReply, r.WellFormed →
    ∃ reply, Reply.ofRedisReply r = some reply
      ∧ (Reply.Faithful r reply ↔ r.ZeroFree)
  | .null, hwf => by simp [RedisReply.WellFormed] at hwf
  | .node type integer len str elements element, hwf => by
      rw [RedisReply.WellFormed] at hwf
      rcases hwf with ⟨ht, hstr⟩ | rfl | ⟨rfl, rfl, hall⟩ | rfl
      · exact ⟨_, ofRedisReply_string integer elements element ht hstr,
          faithful_string_iff integer len str elements element ht⟩
      · exact ⟨_, ofRedisReply_integer integer len str elements element,
          faithful_integer_iff integer len str elements element⟩
      · obtain ⟨es, hes, hlen, hiff⟩ := pushElements_wellFormed element hall
        refine ⟨⟨redisReplyArray, 0, [], es⟩, ?_, ?_⟩
        · rw [ofRedisReply_array, hes, Option.map_some]
        · rw [faithful_array_iff integer len str element es hlen, zeroFree_array_iff]
          exact hiff
      · exact ⟨_, ofRedisReply_nil integer len str elements element,
          faithful_nil_iff integer len str elements element⟩

/-- The push loop keeps the order and the number of the elements. -/
theorem pushElements_wellFormed : ∀ rs : List RedisReply, RedisReply.AllWellFormed rs →
    ∃ es, Reply.pushElements rs.length rs = some es ∧ es.length = rs.length
      ∧ (Reply.AllFaithful rs es ↔ RedisReply.AllZeroFree rs)
  | [], _ => ⟨[], by simp [Reply.pushElements], rfl,
      by simp [Reply.AllFaithful, RedisReply.AllZeroFree]⟩
  | r :: rs, hall => by
      rw [RedisReply.AllWellFormed] at hall
      obtain ⟨e, he, hr⟩ := ofRedisReply_wellFormed r hall.1
      obtain ⟨es, hes, hlen, hrs⟩ := pushElements_wellFormed rs hall.2
      refine ⟨e :: es, ?_, by simp [hlen], ?_⟩
      · simp [Reply.pushElements, he, hes]
      · rw [Reply.AllFaithful, RedisReply.AllZeroFree, hr, hrs]

end

/-! ## A faithful copy determines the content -/

mutual

/-- Two trees with one faithful copy carry the same content. -/
theorem sameContent_of_faithful : ∀ (r s : RedisReply) (reply : Reply),
    Reply.Faithful r reply → Reply.Faithful s reply → r.SameContent s
  | .null, _, _, hr, _ => by simp [Reply.Faithful] at hr
  | .node _ _ _ _ _ _, .null, _, _, hs => by simp [Reply.Faithful] at hs
  | .node type integer len str elements element,
    .node type' integer' len' str' elements' element', reply, hr, hs => by
      rw [Reply.Faithful] at hr hs
      obtain ⟨htype, hstr, hint, helems⟩ := hr
      obtain ⟨htype', hstr', hint', helems'⟩ := hs
      have heq : type = type' := htype.symm.trans htype'
      subst heq
      rw [RedisReply.SameContent]
      refine ⟨rfl, fun ht => ?_, fun ht => ?_, fun ht => ?_⟩
      · rw [if_pos ht] at hstr hstr'
        exact hstr.symm.trans hstr'
      · rw [if_pos ht] at hint hint'
        exact hint.symm.trans hint'
      · rw [if_pos ht] at helems helems'
        exact allSameContent_of_faithful element element' reply.elements_
          helems.2 helems'.2

theorem allSameContent_of_faithful : ∀ (rs ss : List RedisReply) (es : List Reply),
    Reply.AllFaithful rs es → Reply.AllFaithful ss es → RedisReply.AllSameContent rs ss
  | [], [], _, _, _ => by simp [RedisReply.AllSameContent]
  | [], _ :: _, [], _, hs => by simp [Reply.AllFaithful] at hs
  | [], _ :: _, _ :: _, hr, _ => by simp [Reply.AllFaithful] at hr
  | _ :: _, _, [], hr, _ => by simp [Reply.AllFaithful] at hr
  | _ :: _, [], _ :: _, _, hs => by simp [Reply.AllFaithful] at hs
  | r :: rs, s :: ss, e :: es, hr, hs => by
      rw [Reply.AllFaithful] at hr hs
      rw [RedisReply.AllSameContent]
      exact ⟨sameContent_of_faithful r s e hr.1 hs.1,
        allSameContent_of_faithful rs ss es hr.2 hs.2⟩

end

/-! ## Main results -/

/-- **The reply copy.** On every well-formed tree the constructor returns
a faithful deep copy if and only if no STRING, STATUS or ERROR payload in
the tree holds a zero byte; and on trees of that kind it loses nothing:
equal copies come from trees with the same content. -/
theorem reply_faithful_iff_zeroFree (r : RedisReply) (hr : r.WellFormed) :
    ((∃ reply, Reply.ofRedisReply r = some reply ∧ Reply.Faithful r reply) ↔ r.ZeroFree)
    ∧ (∀ s : RedisReply, s.WellFormed → r.ZeroFree → s.ZeroFree →
        Reply.ofRedisReply r = Reply.ofRedisReply s → r.SameContent s) := by
  obtain ⟨reply, hreply, hiff⟩ := ofRedisReply_wellFormed r hr
  constructor
  · constructor
    · rintro ⟨reply', hreply', hfaithful⟩
      rw [hreply] at hreply'
      exact hiff.mp (Option.some.inj hreply' ▸ hfaithful)
    · intro hzero
      exact ⟨reply, hreply, hiff.mpr hzero⟩
  · intro s hs hrz hsz heq
    obtain ⟨reply', hreply', hiff'⟩ := ofRedisReply_wellFormed s hs
    have hsame : reply = reply' := by
      rw [hreply, hreply'] at heq
      exact Option.some.inj heq
    exact sameContent_of_faithful r s reply (hiff.mpr hrz) (hsame ▸ hiff'.mpr hsz)

/-- An array reply of the kind `LRANGE` or `EXEC` gives: a string, an
integer and a nil, one level down. -/
def sampleArray : RedisReply :=
  .node redisReplyArray 0 0 none 3
    [.node redisReplyString 0 3 (some [49, 50, 51, 0]) 0 [],
     .node redisReplyInteger 7 0 none 0 [],
     .node redisReplyNil 0 0 none 0 []]

theorem sampleArray_wellFormed : sampleArray.WellFormed := by
  simp [sampleArray, RedisReply.WellFormed, RedisReply.AllWellFormed, isStringType,
    terminatedAt]

theorem sampleArray_zeroFree : sampleArray.ZeroFree := by
  simp [sampleArray, RedisReply.ZeroFree, RedisReply.AllZeroFree, payload]

theorem reply_faithful_sampleArray :
    (∃ reply, Reply.ofRedisReply sampleArray = some reply ∧ Reply.Faithful sampleArray reply)
    ∧ sampleArray.SameContent sampleArray :=
  ⟨(reply_faithful_iff_zeroFree sampleArray sampleArray_wellFormed).1.mpr sampleArray_zeroFree,
   (reply_faithful_iff_zeroFree sampleArray sampleArray_wellFormed).2 sampleArray
     sampleArray_wellFormed sampleArray_zeroFree sampleArray_zeroFree rfl⟩

/-- The three payload bytes `a`, zero, `b` come back as the one byte `a`.
That is not a faithful copy, and it is the copy of another reply. -/
theorem reply_cut_at_zero_byte :
    (RedisReply.node redisReplyString 0 3 (some [97, 0, 98, 0]) 0 []).WellFormed
    ∧ (RedisReply.node redisReplyString 0 1 (some [97, 0]) 0 []).WellFormed
    ∧ ¬ (∃ reply,
          Reply.ofRedisReply (.node redisReplyString 0 3 (some [97, 0, 98, 0]) 0 []) = some reply
          ∧ Reply.Faithful (.node redisReplyString 0 3 (some [97, 0, 98, 0]) 0 []) reply)
    ∧ Reply.ofRedisReply (.node redisReplyString 0 3 (some [97, 0, 98, 0]) 0 [])
        = Reply.ofRedisReply (.node redisReplyString 0 1 (some [97, 0]) 0 [])
    ∧ ¬ (RedisReply.node redisReplyString 0 3 (some [97, 0, 98, 0]) 0 []).SameContent
          (.node redisReplyString 0 1 (some [97, 0]) 0 []) := by
  refine ⟨?_, ?_, ?_, rfl, ?_⟩
  · simp [RedisReply.WellFormed, isStringType, terminatedAt]
  · simp [RedisReply.WellFormed, isStringType, terminatedAt]
  · rintro ⟨reply, hreply, hfaithful⟩
    have hval : Reply.ofRedisReply (.node redisReplyString 0 3 (some [97, 0, 98, 0]) 0 [])
        = some ⟨redisReplyString, 0, [97], []⟩ := rfl
    rw [hval] at hreply
    obtain rfl := Option.some.inj hreply
    simp [Reply.Faithful, isStringType, payload] at hfaithful
  · simp [RedisReply.SameContent, isStringType, payload]

end Comproject.Db
