/-! Macros and type aliases of the Unreal Engine. -/

namespace Highlighter.Lexicon.Engine

/-- Macros of reflection, delegates, log categories, modules, shaders and exports. -/
def coreMacros : List String :=
  ["UCLASS", "USTRUCT", "UENUM", "UINTERFACE", "UDELEGATE", "UPROPERTY", "UFUNCTION", "UMETA",
   "UPARAM", "RIGVM_METHOD", "GENERATED_BODY", "GENERATED_UCLASS_BODY", "GENERATED_USTRUCT_BODY",
   "GENERATED_UINTERFACE_BODY", "GENERATED_IINTERFACE_BODY", "DECLARE_DYNAMIC_MULTICAST_DELEGATE",
   "DECLARE_DYNAMIC_MULTICAST_DELEGATE_OneParam", "DECLARE_DYNAMIC_MULTICAST_DELEGATE_TwoParams",
   "DECLARE_DYNAMIC_MULTICAST_DELEGATE_ThreeParams",
   "DECLARE_DYNAMIC_MULTICAST_DELEGATE_FourParams", "DECLARE_DYNAMIC_MULTICAST_DELEGATE_FiveParams",
   "DECLARE_DYNAMIC_MULTICAST_DELEGATE_SixParams", "DECLARE_DYNAMIC_MULTICAST_DELEGATE_SevenParams",
   "DECLARE_DYNAMIC_MULTICAST_DELEGATE_EightParams",
   "DECLARE_DYNAMIC_MULTICAST_DELEGATE_NineParams",
   "DECLARE_DYNAMIC_MULTICAST_SPARSE_DELEGATE_OneParam", "DECLARE_DYNAMIC_DELEGATE",
   "DECLARE_DYNAMIC_DELEGATE_RetVal", "DECLARE_DYNAMIC_DELEGATE_OneParam",
   "DECLARE_DYNAMIC_DELEGATE_TwoParams", "DECLARE_DYNAMIC_DELEGATE_ThreeParams",
   "DECLARE_DYNAMIC_DELEGATE_FourParams", "DECLARE_MULTICAST_DELEGATE",
   "DECLARE_MULTICAST_DELEGATE_OneParam", "DECLARE_MULTICAST_DELEGATE_TwoParams",
   "DECLARE_MULTICAST_DELEGATE_ThreeParams", "DECLARE_MULTICAST_DELEGATE_FourParams",
   "DECLARE_DELEGATE", "DECLARE_DELEGATE_OneParam", "DECLARE_DELEGATE_TwoParams",
   "DECLARE_DELEGATE_ThreeParams", "DECLARE_DELEGATE_FourParams", "DECLARE_DELEGATE_RetVal",
   "DECLARE_DELEGATE_RetVal_OneParam", "DECLARE_DELEGATE_RetVal_TwoParams", "DECLARE_EVENT",
   "DECLARE_EVENT_OneParam", "DECLARE_EVENT_TwoParams", "DECLARE_EVENT_ThreeParams",
   "DECLARE_EVENT_FourParams", "DECLARE_LOG_CATEGORY_EXTERN", "DECLARE_LOG_CATEGORY_CLASS",
   "DEFINE_LOG_CATEGORY", "DEFINE_LOG_CATEGORY_STATIC", "IMPLEMENT_PRIMARY_GAME_MODULE",
   "IMPLEMENT_GAME_MODULE", "IMPLEMENT_MODULE", "UE_DECLARE_GAMEPLAY_TAG_EXTERN",
   "UE_DEFINE_GAMEPLAY_TAG", "UE_DEFINE_GAMEPLAY_TAG_COMMENT", "DECLARE_GLOBAL_SHADER",
   "IMPLEMENT_GLOBAL_SHADER", "IMPLEMENT_GLOBAL_SHADER_PUBLIC_INTERFACE",
   "IMPLEMENT_MATERIAL_SHADER_TYPE", "IMPLEMENT_SHADER_TYPE", "IMPLEMENT_SHADER_TYPE2",
   "BEGIN_SHADER_PARAMETER_STRUCT", "END_SHADER_PARAMETER_STRUCT",
   "BEGIN_GLOBAL_SHADER_PARAMETER_STRUCT", "END_GLOBAL_SHADER_PARAMETER_STRUCT",
   "IMPLEMENT_GLOBAL_SHADER_PARAMETER_STRUCT", "BEGIN_UNIFORM_BUFFER_STRUCT",
   "END_UNIFORM_BUFFER_STRUCT", "IMPLEMENT_UNIFORM_BUFFER_STRUCT", "SHADER_PARAMETER",
   "SHADER_PARAMETER_ARRAY", "SHADER_PARAMETER_STRUCT", "SHADER_PARAMETER_STRUCT_REF",
   "SHADER_PARAMETER_STRUCT_ARRAY", "SHADER_PARAMETER_STRUCT_INCLUDE", "SHADER_PARAMETER_TEXTURE",
   "SHADER_PARAMETER_SAMPLER", "SHADER_PARAMETER_SRV", "SHADER_PARAMETER_UAV",
   "SHADER_PARAMETER_RDG_TEXTURE", "SHADER_PARAMETER_RDG_TEXTURE_SRV",
   "SHADER_PARAMETER_RDG_TEXTURE_UAV", "SHADER_PARAMETER_RDG_TEXTURE_ARRAY",
   "SHADER_PARAMETER_RDG_BUFFER", "SHADER_PARAMETER_RDG_BUFFER_SRV",
   "SHADER_PARAMETER_RDG_BUFFER_UAV", "SHADER_PARAMETER_RDG_UNIFORM_BUFFER",
   "SHADER_PARAMETER_UNIFORM_BUFFER", "SHADER_USE_PARAMETER_STRUCT", "SHADER_PERMUTATION_BOOL",
   "SHADER_PERMUTATION_INT", "SHADER_PERMUTATION_RANGE_INT", "SHADER_PERMUTATION_ENUM_CLASS",
   "SHADER_PERMUTATION_SPARSE_INT", "RDG_EVENT_NAME", "RDG_EVENT_SCOPE",
   "RDG_EVENT_SCOPE_CONDITIONAL", "RDG_GPU_STAT_SCOPE", "RDG_GPU_STAT_SCOPE_VERBOSE",
   "RDG_GPU_MASK_SCOPE", "RDG_DEFINE_GPU_STAT", "RDG_DECLARE_GPU_STAT",
   "RDG_DECLARE_GPU_STAT_GLOBAL", "SCOPED_DRAW_EVENT", "SCOPED_DRAW_EVENTF",
   "SCOPED_CONDITIONAL_DRAW_EVENT", "SCOPED_GPU_STAT", "GPU_DEBUG_SCOPE", "RPC_VALIDATE",
   "DEPRECATED", "UE_DEPRECATED", "MARK_PROPERTY_DIRTY_FROM_NAME", "UMG_API", "ENGINE_API",
   "CORE_API", "COREUOBJECT_API", "RENDERER_API", "RENDERCORE_API", "RHI_API", "SLATE_API",
   "SLATECORE_API", "INPUTCORE_API", "GAMEPLAYABILITIES_API", "AIMODULE_API",
   "NAVIGATIONSYSTEM_API", "UNREALED_API", "BLUTILITY_API"]

/-- Macros of logging, texts, assertions, platforms, constants and statistics. -/
def utilityMacros : List String :=
  ["UE_LOG", "UE_LOGFMT", "UE_CLOG", "UE_VLOG", "UE_VLOG_SEGMENT", "UE_VLOG_LOCATION",
   "UE_VLOG_BOX", "UE_VLOG_OBOX", "UE_VLOG_CONE", "UE_VLOG_CYLINDER", "UE_VLOG_CAPSULE", "TEXT",
   "LOCTEXT", "LOCTEXT_NAMESPACE", "NSLOCTEXT", "INVTEXT", "TEXTVIEW", "LOCGEN_NAME_OR_STRING",
   "check", "checkf", "checkCode", "checkNoEntry", "checkNoReentry", "checkNoRecursion",
   "checkSlow", "checkfSlow", "verify", "verifyf", "ensure", "ensureMsgf", "ensureAlways",
   "ensureAlwaysMsgf", "unimplemented", "LIKELY", "UNLIKELY", "PLATFORM_LIKELY",
   "PLATFORM_UNLIKELY", "FORCEINLINE", "FORCEINLINE_DEBUGGABLE", "FORCENOINLINE", "PURE_VIRTUAL",
   "ABSTRACT", "PRAGMA_DISABLE_OPTIMIZATION", "PRAGMA_ENABLE_OPTIMIZATION",
   "PRAGMA_DISABLE_OPTIMIZATION_ACTUAL", "PRAGMA_ENABLE_OPTIMIZATION_ACTUAL",
   "PRAGMA_PUSH_PLATFORM_DEFAULT_PACKING", "PRAGMA_POP_PLATFORM_DEFAULT_PACKING",
   "PRAGMA_DISABLE_UNSAFE_TYPECAST_WARNINGS", "PRAGMA_RESTORE_UNSAFE_TYPECAST_WARNINGS",
   "WITH_EDITOR", "WITH_EDITORONLY_DATA", "WITH_SERVER_CODE", "WITH_CLIENT_CODE",
   "WITH_DEV_AUTOMATION_TESTS", "WITH_PERF_AUTOMATION_TESTS", "UE_BUILD_DEBUG",
   "UE_BUILD_DEVELOPMENT", "UE_BUILD_TEST", "UE_BUILD_SHIPPING", "PLATFORM_WINDOWS", "PLATFORM_MAC",
   "PLATFORM_LINUX", "PLATFORM_ANDROID", "PLATFORM_IOS", "PLATFORM_TVOS", "PLATFORM_HOLOLENS",
   "PLATFORM_DESKTOP", "PLATFORM_MOBILE", "PLATFORM_CONSOLE", "PLATFORM_64BITS",
   "PLATFORM_LITTLE_ENDIAN", "GET_MEMBER_NAME_CHECKED", "GET_MEMBER_NAME_STRING_CHECKED",
   "GET_FUNCTION_NAME_CHECKED", "GET_FUNCTION_NAME_STRING_CHECKED", "GET_CLASS_NAME_CHECKED",
   "INDEX_NONE", "MAX_int8", "MIN_int8", "MAX_uint8", "MAX_int16", "MIN_int16", "MAX_uint16",
   "MAX_int32", "MIN_int32", "MAX_uint32", "MAX_int64", "MIN_int64", "MAX_uint64", "MAX_FLT",
   "MIN_FLT", "MAX_dbl", "KINDA_SMALL_NUMBER", "SMALL_NUMBER", "BIG_NUMBER", "EUCLID", "PI",
   "INV_PI", "HALF_PI", "TWO_PI", "GOLDEN_RATIO", "FLOAT_NON_FRACTIONAL", "DELTA",
   "THRESH_POINT_ON_PLANE", "THRESH_POINT_ON_SIDE", "THRESH_POINTS_ARE_SAME",
   "THRESH_POINTS_ARE_NEAR", "THRESH_NORMALS_ARE_SAME", "THRESH_VECTORS_ARE_NEAR",
   "THRESH_SPLIT_POLY_WITH_PLANE", "THRESH_SPLIT_POLY_PRECISELY", "THRESH_ZERO_NORM_SQUARED",
   "THRESH_NORMALS_ARE_PARALLEL", "THRESH_NORMALS_ARE_ORTHOGONAL", "INVALID_HANDLE_VALUE",
   "ARRAY_COUNT", "UE_ARRAY_COUNT", "STRUCT_OFFSET", "PROPERTY_OFFSET", "IN", "OUT",
   "TCHAR_TO_UTF8", "UTF8_TO_TCHAR", "TCHAR_TO_ANSI", "ANSI_TO_TCHAR", "TCHAR_TO_UTF16",
   "UTF16_TO_TCHAR", "StringCast", "DECLARE_INTERFACE", "DECLARE_INTERFACE_FUNCTION",
   "DECLARE_STATS_GROUP", "DECLARE_STATS_GROUP_VERBOSE", "DECLARE_CYCLE_STAT",
   "DECLARE_CYCLE_STAT_EXTERN", "DECLARE_FLOAT_COUNTER_STAT", "DECLARE_DWORD_COUNTER_STAT",
   "DECLARE_FLOAT_ACCUMULATOR_STAT", "DECLARE_DWORD_ACCUMULATOR_STAT", "DECLARE_MEMORY_STAT",
   "DECLARE_MEMORY_STAT_EXTERN", "DEFINE_STAT", "SCOPE_CYCLE_COUNTER",
   "SCOPE_CYCLE_COUNTER_VERBOSE", "QUICK_SCOPE_CYCLE_COUNTER", "SCOPED_NAMED_EVENT",
   "SCOPED_NAMED_EVENT_F", "SCOPED_NAMED_EVENT_FSTRING", "TRACE_CPUPROFILER_EVENT_SCOPE",
   "TRACE_CPUPROFILER_EVENT_SCOPE_STR", "TRACE_CPUPROFILER_EVENT_SCOPE_TEXT",
   "CSV_SCOPED_TIMING_STAT", "CSV_CUSTOM_STAT", "CSV_EVENT"]

/-- The names that the engine gives to primitive types. -/
def primitiveTypes : List String :=
  ["int8", "int16", "int32", "int64", "uint8", "uint16", "uint32", "uint64", "float32", "float64",
   "TCHAR", "WIDECHAR", "ANSICHAR", "UTF8CHAR", "CHAR8", "CHAR16", "CHAR32", "SIZE_T", "SSIZE_T",
   "PTRINT", "UPTRINT", "BOOL", "UBOOL", "TYPE_OF_NULL"]

end Highlighter.Lexicon.Engine
