/-! Names of the C++ standard library. -/

namespace Highlighter.Lexicon.Standard

def types : List String :=
  ["string", "wstring", "u8string", "u16string", "u32string", "string_view", "wstring_view",
   "vector", "array", "deque", "list", "forward_list", "map", "unordered_map", "multimap",
   "unordered_multimap", "set", "unordered_set", "multiset", "unordered_multiset", "stack", "queue",
   "priority_queue", "pair", "tuple", "optional", "variant", "any", "shared_ptr", "unique_ptr",
   "weak_ptr", "enable_shared_from_this", "function", "bind", "thread", "mutex", "recursive_mutex",
   "timed_mutex", "condition_variable", "condition_variable_any", "lock_guard", "unique_lock",
   "scoped_lock", "shared_lock", "atomic", "atomic_bool", "atomic_int", "atomic_flag", "future",
   "promise", "packaged_task", "async", "exception", "runtime_error", "logic_error", "out_of_range",
   "invalid_argument", "overflow_error", "underflow_error", "domain_error", "range_error",
   "length_error", "bad_alloc", "bad_cast", "bad_typeid", "initializer_list", "type_info", "bitset",
   "chrono", "filesystem", "regex", "smatch", "cmatch", "wsmatch", "wcmatch", "istringstream",
   "ostringstream", "stringstream", "ifstream", "ofstream", "fstream", "istream", "ostream",
   "iostream", "cin", "cout", "cerr", "clog", "size_t", "ptrdiff_t", "nullptr_t", "int8_t",
   "int16_t", "int32_t", "int64_t", "uint8_t", "uint16_t", "uint32_t", "uint64_t", "intptr_t",
   "uintptr_t", "intmax_t", "uintmax_t", "remove_reference", "remove_const", "remove_volatile",
   "remove_cv", "remove_pointer", "remove_extent", "remove_all_extents", "add_const",
   "add_volatile", "add_cv", "add_pointer", "add_lvalue_reference", "add_rvalue_reference",
   "make_signed", "make_unsigned", "decay", "enable_if", "conditional", "is_same", "is_base_of",
   "is_convertible", "is_constructible", "is_assignable", "is_void", "is_null_pointer",
   "is_integral", "is_floating_point", "is_array", "is_pointer", "is_lvalue_reference",
   "is_rvalue_reference", "is_member_pointer", "is_enum", "is_union", "is_class", "is_function",
   "is_trivial", "is_standard_layout", "is_pod", "is_abstract", "is_polymorphic", "is_final",
   "is_const", "is_volatile", "is_signed", "is_unsigned", "is_arithmetic", "is_scalar",
   "is_compound", "is_object", "is_reference", "is_member_function_pointer",
   "is_member_object_pointer", "is_default_constructible", "is_copy_constructible",
   "is_move_constructible", "is_copy_assignable", "is_move_assignable", "is_destructible",
   "is_trivially_constructible", "is_trivially_copyable", "underlying_type", "result_of",
   "invoke_result", "alignment_of", "rank", "extent", "integral_constant", "true_type",
   "false_type", "type_identity", "void_t", "conjunction", "disjunction", "negation",
   "forward_iterator_tag", "bidirectional_iterator_tag", "random_access_iterator_tag",
   "input_iterator_tag", "output_iterator_tag", "iterator_traits", "allocator", "allocator_traits",
   "char_traits", "numeric_limits", "ratio", "ratio_add", "ratio_subtract", "ratio_multiply",
   "ratio_divide", "complex", "valarray", "reference_wrapper"]

/-- Stream objects, which count as global variables. -/
def streams : List String :=
  ["cout", "cerr", "clog", "cin", "wcout", "wcin", "wcerr", "wclog"]

def functions : List String :=
  ["endl", "ends", "flush", "forward", "move", "move_if_noexcept", "swap", "exchange", "make_pair",
   "make_tuple", "make_optional", "make_unique", "make_shared", "make_reverse_iterator",
   "make_move_iterator", "get", "holds_alternative", "visit", "static_pointer_cast",
   "dynamic_pointer_cast", "const_pointer_cast", "begin", "end", "rbegin", "rend", "cbegin", "cend",
   "crbegin", "crend", "find", "find_if", "find_if_not", "find_end", "find_first_of", "count",
   "count_if", "sort", "stable_sort", "partial_sort", "nth_element", "reverse", "reverse_copy",
   "rotate", "rotate_copy", "copy", "copy_if", "copy_n", "copy_backward", "fill", "fill_n",
   "generate", "generate_n", "transform", "remove", "remove_if", "remove_copy", "remove_copy_if",
   "replace", "replace_if", "replace_copy", "replace_copy_if", "unique", "unique_copy", "merge",
   "inplace_merge", "min", "max", "minmax", "min_element", "max_element", "minmax_element", "clamp",
   "accumulate", "reduce", "inner_product", "partial_sum", "adjacent_difference", "iota", "all_of",
   "any_of", "none_of", "for_each", "for_each_n", "equal", "mismatch", "is_permutation",
   "lower_bound", "upper_bound", "equal_range", "binary_search", "push_heap", "pop_heap",
   "make_heap", "sort_heap", "next_permutation", "prev_permutation", "advance", "next", "prev",
   "distance", "to_string", "to_wstring", "stoi", "stol", "stoll", "stoul", "stoull", "stof",
   "stod", "stold", "bind", "ref", "cref", "invoke", "apply", "async", "format", "print", "println",
   "hash"]

end Highlighter.Lexicon.Standard
